import TypeWatch.Lexeme.Basic

/-! # The ends of pieces

A token ends with a character of its line: the last quote of a string literal, or a character that is no
line feed (`WellFormed`). A line break has a line feed. -/
namespace TypeWatch
set_option autoImplicit false

namespace Lexeme

/-! ## Lengths -/

/-- The first characters of a text are some, and the last of them is no line feed. -/
def Ends (text : List Char) (n : Nat) : Prop := 0 < n ∧ ∃ d, text[n - 1]? = some d ∧ d ≠ '\n'

theorem ends_cons {c : Char} {cs : List Char} {n : Nat} (h : Ends cs n) : Ends (c :: cs) (n + 1) := by
  obtain ⟨hn, d, hd, hne⟩ := h
  refine ⟨Nat.succ_pos n, d, ?_, hne⟩
  obtain ⟨k, rfl⟩ : ∃ k, n = k + 1 := ⟨n - 1, by omega⟩
  simpa using hd

theorem ends_one {c : Char} (cs : List Char) (hc : c ≠ '\n') : Ends (c :: cs) 1 :=
  ⟨Nat.one_pos, c, rfl, hc⟩

theorem ends_drop {text : List Char} {m n : Nat} (h : Ends (text.drop m) n) : Ends text (m + n) := by
  obtain ⟨hn, d, hd, hne⟩ := h
  refine ⟨by omega, d, ?_, hne⟩
  rw [List.getElem?_drop] at hd
  rw [← hd]
  congr 1
  omega

/-- What may follow keeps the end where it is or moves it to an end of its own. -/
theorem ends_add {text : List Char} {m n : Nat} (hm : Ends text m)
    (hn : n = 0 ∨ Ends (text.drop m) n) : Ends text (m + n) := by
  rcases hn with rfl | hn
  · exact hm
  · exact ends_drop hn

theorem ends_runLength {p : Char → Bool} (hp : p '\n' = false) {cs : List Char}
    (h : 0 < runLength p cs) : Ends cs (runLength p cs) := by
  induction cs with
  | nil => simp [runLength] at h
  | cons c cs ih =>
    by_cases hc : p c = true
    · have hlen : runLength p (c :: cs) = runLength p cs + 1 := by simp [runLength, hc]
      have hne : c ≠ '\n' := fun he => by simp [he, hp] at hc
      rw [hlen]
      by_cases hrun : 0 < runLength p cs
      · exact ends_cons (ih hrun)
      · rw [Nat.eq_zero_of_not_pos hrun]
        exact ends_one cs hne
    · simp [runLength, hc] at h

/-- A run may be empty. -/
theorem runLength_ends {p : Char → Bool} (hp : p '\n' = false) (cs : List Char) :
    runLength p cs = 0 ∨ Ends cs (runLength p cs) := by
  by_cases h : 0 < runLength p cs
  · exact Or.inr (ends_runLength hp h)
  · exact Or.inl (Nat.eq_zero_of_not_pos h)

theorem ends_cons_run {p : Char → Bool} (hp : p '\n' = false) {c : Char} (hc : c ≠ '\n')
    (cs : List Char) : Ends (c :: cs) (1 + runLength p cs) :=
  ends_add (ends_one cs hc) (runLength_ends hp cs)

theorem ne_feed {p : Char → Bool} (hp : p '\n' = false) {c : Char} (hc : p c = true) : c ≠ '\n' := by
  intro he
  rw [he, hp] at hc
  exact absurd hc (by decide)

/-! ## Numbers -/

theorem markedDigit?_feed {mark : Char} {p : Char → Bool} (h : markedDigit? mark = some p) :
    p '\n' = false := by
  unfold markedDigit? at h
  split at h
  all_goals first | (obtain rfl := Option.some.inj h; decide) | cases h

theorem markedLength?_ends {text : List Char} {n : Nat} (h : markedLength? text = some n) :
    Ends text n := by
  unfold markedLength? at h
  split at h
  · rename_i mark cs
    cases hp : markedDigit? mark with
    | none => simp [hp] at h
    | some p =>
      simp only [hp] at h
      split at h
      · exact absurd h nofun
      · rename_i k hrun
        obtain rfl := Option.some.inj h
        have hfeed : (p '\n' || '\n' == '_') = false := by simp [markedDigit?_feed hp]
        have hends := ends_runLength (p := fun c => p c || c == '_') hfeed (by rw [hrun]; exact Nat.succ_pos k)
        rw [hrun] at hends
        exact ends_cons (ends_cons hends)
  · exact absurd h nofun

theorem mantissaLength?_ends {text : List Char} {n : Nat} (h : mantissaLength? text = some n) :
    Ends text n := by
  have hrun : isDigitOrUnderscore '\n' = false := by decide
  have hdigit : Char.isDigit '\n' = false := by decide
  unfold mantissaLength? at h
  split at h
  · rename_i c cs
    split at h
    · rename_i hc
      obtain rfl := Option.some.inj h
      have hends := ends_cons (c := '.') (ends_cons_run hrun (ne_feed hdigit hc) cs)
      rwa [show 1 + runLength isDigitOrUnderscore cs + 1 = 2 + runLength isDigitOrUnderscore cs by omega]
        at hends
    · exact absurd h nofun
  · rename_i c cs _
    split at h
    · rename_i hc
      have hwhole := ends_cons_run hrun (ne_feed hdigit hc) cs
      dsimp only at h
      split at h
      · rename_i fraction hrest
        obtain rfl := Option.some.inj h
        have hdrop : (c :: cs).drop (1 + runLength isDigitOrUnderscore cs) = '.' :: fraction := by
          rw [Nat.add_comm, List.drop_succ_cons, hrest]
        have hends := ends_add hwhole (Or.inr (hdrop ▸ ends_cons_run hrun (by decide) fraction))
        rwa [show 1 + runLength isDigitOrUnderscore cs + (1 + runLength isDigitOrUnderscore fraction) =
          2 + runLength isDigitOrUnderscore cs + runLength isDigitOrUnderscore fraction by omega] at hends
      · obtain rfl := Option.some.inj h
        exact hwhole
    · exact absurd h nofun
  · exact absurd h nofun

theorem digitsLength?_ends {text : List Char} {n : Nat} (h : digitsLength? text = some n) :
    Ends text n := by
  unfold digitsLength? at h
  split at h
  · split at h
    · rename_i hc
      obtain rfl := Option.some.inj h
      exact ends_cons_run (by decide) (ne_feed (by decide) hc) _
    · exact absurd h nofun
  · exact absurd h nofun

theorem exponentLength_ends (text : List Char) : exponentLength text = 0 ∨ Ends text (exponentLength text) := by
  unfold exponentLength
  split
  · rename_i mark cs
    split
    · split
      · rename_i sign rest
        split
        · cases h : digitsLength? rest with
          | none => exact Or.inl rfl
          | some n => exact Or.inr (ends_cons (ends_cons (digitsLength?_ends h)))
        · cases h : digitsLength? (sign :: rest) with
          | none => exact Or.inl rfl
          | some n => exact Or.inr (ends_cons (digitsLength?_ends h))
      · exact Or.inl rfl
    · exact Or.inl rfl
  · exact Or.inl rfl

theorem imaginaryLength_ends (text : List Char) :
    imaginaryLength text = 0 ∨ Ends text (imaginaryLength text) := by
  unfold imaginaryLength
  split
  · exact Or.inr (ends_one _ (by decide))
  · exact Or.inr (ends_one _ (by decide))
  · exact Or.inl rfl

theorem numberLength?_ends {text : List Char} {n : Nat} (h : numberLength? text = some n) :
    Ends text n := by
  unfold numberLength? at h
  split at h
  · rename_i k hk
    obtain rfl := Option.some.inj h
    exact markedLength?_ends hk
  · split at h
    · exact absurd h nofun
    · rename_i m hm
      obtain rfl := Option.some.inj h
      have hmantissa := ends_add (mantissaLength?_ends hm) (exponentLength_ends _)
      exact ends_add hmantissa (imaginaryLength_ends _)

/-! ## String literals -/

theorem isQuote_cases {q : Char} (hq : isQuote q = true) : q = '"' ∨ q = '\'' := by
  simpa [isQuote] using hq

theorem ne_lineBreak_of_isQuote {q : Char} (hq : isQuote q = true) : q ≠ '\n' ∧ q ≠ '\r' ∧ q ≠ '\\' := by
  rcases isQuote_cases hq with rfl | rfl <;> decide

/-- A character that escapes no other one closes a literal or belongs to it. -/
theorem longBodyLength?_unescaped {c : Char} (hc : c ≠ '\\') (q : Char) (cs : List Char) :
    longBodyLength? q (c :: cs) =
      if c == q && cs.take 2 == [q, q] then some 3 else (longBodyLength? q cs).map (· + 1) := by
  rw [longBodyLength?.eq_2 q c cs fun _ _ h _ => hc h]
  simp [hc]

theorem shortBodyLength?_unescaped {c : Char} (hc : c ≠ '\\') (q : Char) (cs : List Char) :
    shortBodyLength? q (c :: cs) = if c == q then some 1
      else if c == '\r' || c == '\n' then none
      else (shortBodyLength? q cs).map (· + 1) := by
  rw [shortBodyLength?.eq_2 q c cs fun _ _ h _ => hc h]
  simp [hc]

theorem longBodyLength?_ends {q : Char} (hq : q ≠ '\n') {text : List Char} {n : Nat}
    (h : longBodyLength? q text = some n) : Ends text n := by
  induction text using longBodyLength?.induct (q := q) generalizing n with
  | case1 c cs ih =>
    rw [longBodyLength?] at h
    obtain ⟨m, hm, rfl⟩ := Option.map_eq_some_iff.mp h
    exact ends_cons (ends_cons (ih hm))
  | case2 c cs hesc hclose =>
    rw [longBodyLength?.eq_2 q c cs hesc, if_pos hclose] at h
    obtain rfl := Option.some.inj h
    simp only [Bool.and_eq_true, beq_iff_eq] at hclose
    refine ⟨Nat.succ_pos 2, q, ?_, hq⟩
    have htwo := congrArg (fun l => l[1]?) hclose.2
    simpa [List.getElem?_take] using htwo
  | case3 c cs hesc hclose hback =>
    rw [longBodyLength?.eq_2 q c cs hesc, if_neg hclose, if_pos hback] at h
    exact absurd h nofun
  | case4 c cs hesc hclose hback ih =>
    rw [longBodyLength?.eq_2 q c cs hesc, if_neg hclose, if_neg hback] at h
    obtain ⟨m, hm, rfl⟩ := Option.map_eq_some_iff.mp h
    exact ends_cons (ih hm)
  | case5 => exact absurd h nofun

theorem shortBodyLength?_ends {q : Char} (hq : q ≠ '\n') {text : List Char} {n : Nat}
    (h : shortBodyLength? q text = some n) : Ends text n := by
  induction text using shortBodyLength?.induct (q := q) generalizing n with
  | case1 c cs ih =>
    rw [shortBodyLength?] at h
    obtain ⟨m, hm, rfl⟩ := Option.map_eq_some_iff.mp h
    exact ends_cons (ends_cons (ih hm))
  | case2 c cs hesc hclose =>
    rw [shortBodyLength?.eq_2 q c cs hesc, if_pos hclose] at h
    obtain rfl := Option.some.inj h
    obtain rfl : c = q := by simpa using hclose
    exact ends_one cs hq
  | case3 c cs hesc hclose hback =>
    rw [shortBodyLength?.eq_2 q c cs hesc, if_neg hclose, if_pos hback] at h
    exact absurd h nofun
  | case4 c cs hesc hclose hback ih =>
    rw [shortBodyLength?.eq_2 q c cs hesc, if_neg hclose, if_neg hback] at h
    obtain ⟨m, hm, rfl⟩ := Option.map_eq_some_iff.mp h
    exact ends_cons (ih hm)
  | case5 => exact absurd h nofun

theorem quotedLength?_ends {text : List Char} {n : Nat} (hquote : (text.head?.map isQuote).getD false = true)
    (h : quotedLength? text = some n) : Ends text n := by
  cases text with
  | nil => exact absurd h nofun
  | cons q cs =>
    have hq : q ≠ '\n' := ne_feed (p := isQuote) (by decide) (by simpa using hquote)
    have hshort {k : Nat} (hk : (shortBodyLength? q cs).map (· + 1) = some k) : Ends (q :: cs) k := by
      obtain ⟨m, hm, rfl⟩ := Option.map_eq_some_iff.mp hk
      exact ends_cons (shortBodyLength?_ends hq hm)
    rw [quotedLength?] at h
    split at h
    · split at h
      · rename_i m hm
        obtain rfl := Option.some.inj h
        have hlong := ends_cons (c := q) (ends_drop (longBodyLength?_ends hq hm))
        rwa [show 2 + m + 1 = m + 3 by omega] at hlong
      · exact hshort h
    · exact hshort h

theorem literal_ends {text : List Char} {letters n : Nat} (hletters : literalPrefix? text = some letters)
    (h : quotedLength? (text.drop letters) = some n) : Ends text (letters + n) := by
  unfold literalPrefix? at hletters
  dsimp only at hletters
  split at hletters
  · rename_i hquote
    obtain rfl := Option.some.inj hletters
    simp only [Bool.and_eq_true] at hquote
    exact ends_drop (quotedLength?_ends hquote.2 h)
  · exact absurd hletters nofun

/-! ## Operators -/

theorem symbol_ends (o : Operator) : Ends o.symbol o.symbol.length := by
  cases o <;> exact ⟨by decide, _, rfl, by decide⟩

theorem ends_append {text : List Char} {n : Nat} (h : Ends text n) (rest : List Char) :
    Ends (text ++ rest) n := by
  obtain ⟨hn, d, hd, hne⟩ := h
  refine ⟨hn, d, ?_, hne⟩
  have hlt := (List.getElem?_eq_some_iff.mp hd).1
  rw [List.getElem?_append_left hlt, hd]

theorem operator_ends {text : List Char} {o : Operator} (h : Operator.leading? text = some o) :
    Ends text o.symbol.length := by
  have hsymbol := List.find?_some h
  obtain ⟨rest, rfl⟩ := List.isPrefixOf_iff_prefix.mp hsymbol
  exact ends_append (symbol_ends o) rest

/-! ## Pieces -/

theorem isLayout_wordKind (name : List Char) : (wordKind name).isLayout = false := by
  unfold wordKind
  split <;> rfl

theorem isLayout_literalKind (letters : List Char) : (literalKind letters).isLayout = false := by
  unfold literalKind
  split
  · rfl
  · split <;> rfl

/-- What is said of the piece that a text begins with. -/
def LeadingOk (text : List Char) (lexeme : Lexeme) (n : Nat) : Prop :=
  (lexeme = .lineBreak → 0 < n ∧ 0 < Text.lineFeeds (text.take n)) ∧
    ∀ kind, lexeme = .token kind → kind.isLayout = false ∧ Ends text n

theorem leadingOk_token {text : List Char} {kind : TokenKind} {n : Nat} (hkind : kind.isLayout = false)
    (hends : Ends text n) : LeadingOk text (.token kind) n := by
  refine ⟨nofun, ?_⟩
  intro k hk
  obtain rfl := Lexeme.token.inj hk
  exact ⟨hkind, hends⟩

theorem lineBreakLength?_feed {text : List Char} {n : Nat} (h : lineBreakLength? text = some n) :
    0 < n ∧ 0 < Text.lineFeeds (text.take n) := by
  unfold lineBreakLength? at h
  split at h
  · obtain rfl := Option.some.inj h
    exact ⟨Nat.one_pos, by simp [Text.lineFeeds]⟩
  · obtain rfl := Option.some.inj h
    exact ⟨Nat.two_pos, by simp [Text.lineFeeds]⟩
  · cases h

/-- The rules by which a text begins with a piece of a kind and a length. -/
inductive Leads : List Char → Lexeme → Nat → Prop
  | lineBreak {text : List Char} {n : Nat} : lineBreakLength? text = some n → Leads text .lineBreak n
  | continuation {cs : List Char} {n : Nat} : lineBreakLength? cs = some n → Leads ('\\' :: cs) .continuation (n + 1)
  | blanks {c : Char} {cs : List Char} : isLineBlank c = true →
      Leads (c :: cs) .blanks (runLength isLineBlank (c :: cs))
  | comment (cs : List Char) : Leads ('#' :: cs) .comment (runLength isWithinLine ('#' :: cs))
  | literal {text : List Char} {letters n : Nat} : literalPrefix? text = some letters →
      quotedLength? (text.drop letters) = some n →
      Leads text (.token (literalKind (text.take letters))) (letters + n)
  | number {text : List Char} {n : Nat} : numberLength? text = some n → Leads text (.token .number) n
  | word {c : Char} (cs : List Char) : Text.opensName c = true →
      Leads (c :: cs) (.token (wordKind (c :: cs.takeWhile Text.continuesName)))
        (runLength Text.continuesName cs + 1)
  | operator {text : List Char} {o : Operator} : Operator.leading? text = some o →
      Leads text (.token (.op o)) o.symbol.length

theorem take_runLength (p : Char → Bool) (cs : List Char) : cs.take (runLength p cs) = cs.takeWhile p := by
  induction cs with
  | nil => rfl
  | cons c cs ih =>
    by_cases hc : p c = true
    · simpa [runLength, hc] using ih
    · simp [runLength, hc]

theorem leads_of_leading {c : Char} {cs : List Char} {lexeme : Lexeme} {n : Nat}
    (h : leading c cs = .ok (lexeme, n)) : Leads (c :: cs) lexeme n := by
  unfold leading at h
  dsimp only at h
  split at h
  · cases h
    exact .lineBreak ‹_›
  split at h
  · rename_i k hk
    cases h
    by_cases hc : c = '\\'
    · subst hc
      exact .continuation hk
    · rw [if_neg hc] at hk
      exact absurd hk nofun
  split at h
  · cases h
    exact .blanks ‹_›
  split at h
  · cases h
    subst c
    exact .comment cs
  split at h
  · split at h
    · cases h
      exact .literal ‹_› ‹_›
    · exact absurd h nofun
  split at h
  · cases h
    exact .number ‹_›
  split at h
  · cases h
    rw [Nat.add_comm, List.take_succ_cons, take_runLength]
    exact .word cs ‹_›
  split at h
  · cases h
    exact .operator ‹_›
  · exact absurd h nofun

theorem leading_ok {c : Char} {cs : List Char} {lexeme : Lexeme} {n : Nat}
    (h : leading c cs = .ok (lexeme, n)) : LeadingOk (c :: cs) lexeme n := by
  cases leads_of_leading h with
  | lineBreak hn => exact ⟨fun _ => lineBreakLength?_feed hn, nofun⟩
  | continuation | blanks | comment => exact ⟨nofun, nofun⟩
  | literal hletters hn => exact leadingOk_token (isLayout_literalKind _) (literal_ends hletters hn)
  | number hn => exact leadingOk_token rfl (numberLength?_ends hn)
  | word _ hc =>
    have hne : c ≠ '\n' := ne_feed (p := Text.opensName) (by decide) hc
    rw [Nat.add_comm]
    exact leadingOk_token (isLayout_wordKind _) (ends_cons_run (by decide) hne cs)
  | operator ho => exact leadingOk_token rfl (operator_ends ho)

end Lexeme

namespace Piece

/-- A piece has characters, a line break has a line feed, and a token does not end with one. -/
structure WellFormed (p : Piece) : Prop where
  chars_ne : p.chars ≠ []
  feed : p.lexeme = .lineBreak → 0 < Text.lineFeeds p.chars
  token : ∀ kind, p.lexeme = .token kind →
    kind.isLayout = false ∧ ∃ d, p.chars.getLast? = some d ∧ d ≠ '\n'

theorem wellFormed_of_leading {c : Char} {cs : List Char} {lexeme : Lexeme} {n : Nat}
    (h : Lexeme.leading c cs = .ok (lexeme, n)) : WellFormed ⟨lexeme, c :: cs.take (n - 1)⟩ := by
  have hok := Lexeme.leading_ok h
  have htake (hn : 0 < n) : c :: cs.take (n - 1) = (c :: cs).take n := by
    obtain ⟨k, rfl⟩ : ∃ k, n = k + 1 := ⟨n - 1, by omega⟩
    rfl
  refine ⟨List.cons_ne_nil _ _, ?_, ?_⟩
  · intro hbreak
    obtain ⟨hn, hfeed⟩ := hok.1 hbreak
    rw [htake hn]
    exact hfeed
  · intro kind hkind
    obtain ⟨hlayout, hn, d, hd, hne⟩ := hok.2 kind hkind
    refine ⟨hlayout, d, ?_, hne⟩
    have hlt := (List.getElem?_eq_some_iff.mp hd).1
    rw [htake hn, List.getLast?_eq_getElem?, List.length_take, Nat.min_eq_left (by omega),
      List.getElem?_take_of_lt (by omega), hd]

/-- All pieces of a text are well formed. -/
theorem wellFormed_split (cs : List Char) : ∀ p ∈ (split cs).1, p.WellFormed := by
  fun_induction split cs with
  | case1 => simp
  | case2 c cs fault h => simp
  | case3 c cs lexeme n h pieces fault hs ih =>
    intro p hp
    rcases List.mem_cons.mp hp with rfl | hp
    · exact wellFormed_of_leading h
    · rw [hs] at ih
      exact ih p hp

end Piece
end TypeWatch
