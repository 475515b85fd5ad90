import Mathlib.Data.List.Find
import TypeWatch.Lexeme.Basic
import TypeWatch.Text.Basic

/-! # Where lexemes end

A lexeme is cut from a text with its own characters and no more, if the characters that follow it are not
such as would make it longer. In canonical text each name, literal and word is followed by one of a few
characters (`edges`). -/
namespace TypeWatch.Lexeme
set_option autoImplicit false

/-! ## Characters of a list -/

/-- What a test finds of all characters of a list. Characters that are no members are not asked for. -/
theorem forall_of_all {p : Char → Prop} [DecidablePred p] {cs : List Char}
    (h : cs.all (fun c => decide (p c)) = true) : ∀ c ∈ cs, p c :=
  fun c hc => of_decide_eq_true (List.all_eq_true.mp h c hc)

theorem forall_of_head?_all {p : Char → Prop} [DecidablePred p] {cs : List Char}
    (h : cs.head?.all (fun c => decide (p c)) = true) : ∀ c ∈ cs.head?, p c :=
  fun c hc => of_decide_eq_true (Option.all_eq_true _ _ |>.mp h c hc)

/-! ## Edges -/

/-- The characters that follow names, literals and closing brackets in canonical text. -/
def edges : List Char := [' ', ',', ')', ']', '\x7d', ':', '=', '.', '[', '(']

/-- Whether a text begins with an edge, or is empty. -/
def Edge (rest : List Char) : Prop := ∀ d ∈ rest.head?, d ∈ edges

theorem edge_nil : Edge [] := nofun

theorem edge_cons {d : Char} (h : d ∈ edges) (rest : List Char) : Edge (d :: rest) := by
  intro e he
  obtain rfl := Option.some.inj he
  exact h

theorem of_edge {p : Char → Prop} (hp : ∀ d ∈ edges, p d) {rest : List Char} (h : Edge rest) :
    ∀ d ∈ rest.head?, p d := fun d hd => hp d (h d hd)

/-! ## The first character -/

/-- Whether a lexeme with the first character is a token. -/
def startsToken (c : Char) : Bool := !(c == '\n' || c == '\r' || c == '\\' || isLineBlank c || c == '#')

theorem startsToken_iff (c : Char) : startsToken c = true ↔
    c ≠ '\n' ∧ c ≠ '\r' ∧ c ≠ '\\' ∧ isLineBlank c = false ∧ c ≠ '#' := by
  simp [startsToken, and_assoc]

theorem isLineBlank_of_startsToken {c : Char} (h : startsToken c = true) : isLineBlank c = false :=
  ((startsToken_iff c).mp h).2.2.2.1

theorem of_isLineBlank {p : Char → Prop} (hp : ∀ c ∈ [' ', '\t', '\x0c'], p c) {c : Char}
    (hc : isLineBlank c = true) : p c := by
  refine hp c ?_
  simpa [isLineBlank, or_assoc] using hc

/-- A blank begins no line break. -/
theorem lineBreakLength?_of_isLineBlank {c : Char} (hc : isLineBlank c = true) (cs : List Char) :
    lineBreakLength? (c :: cs) = none ∧ c ≠ '\\' :=
  of_isLineBlank (p := fun c => lineBreakLength? (c :: cs) = none ∧ c ≠ '\\') (by simp [lineBreakLength?]) hc

section Leading

variable {c : Char} {cs : List Char}

theorem lineBreakLength?_eq_none (hc : startsToken c = true) : lineBreakLength? (c :: cs) = none := by
  obtain ⟨hfeed, hreturn, -⟩ := (startsToken_iff c).mp hc
  unfold lineBreakLength?
  split
  · rename_i h
    exact absurd (List.cons.inj h).1 hfeed
  · rename_i h
    exact absurd (List.cons.inj h).1 hreturn
  · rfl

/-- What a text begins with whose first character is one of a token. -/
theorem leading_eq (hc : startsToken c = true) : leading c cs =
    match literalPrefix? (c :: cs) with
    | some letters =>
      match quotedLength? ((c :: cs).drop letters) with
      | some n => .ok (token (literalKind ((c :: cs).take letters)), letters + n)
      | none => .error .unterminatedString
    | none =>
      match numberLength? (c :: cs) with
      | some n => .ok (token .number, n)
      | none =>
        if Text.opensName c then
          .ok (token (wordKind ((c :: cs).take (1 + runLength Text.continuesName cs))),
            1 + runLength Text.continuesName cs)
        else match Operator.leading? (c :: cs) with
          | some o => .ok (token (.op o), o.symbol.length)
          | none => .error (.unrecognised (String.singleton c)) := by
  obtain ⟨-, -, hslash, hblank, hmark⟩ := (startsToken_iff c).mp hc
  rw [leading, lineBreakLength?_eq_none hc]
  simp only [if_neg hslash, hblank, Bool.false_eq_true, if_false]
  exact if_neg hmark

theorem token_of_startsToken (hc : startsToken c = true) {lexeme : Lexeme} {n : Nat}
    (h : leading c cs = .ok (lexeme, n)) : ∃ kind, lexeme = .token kind := by
  rw [leading_eq hc] at h
  repeat' split at h
  all_goals cases h
  all_goals exact ⟨_, rfl⟩

end Leading

/-! ## Prefixes of string literals -/

theorem drop_runLength (p : Char → Bool) (cs : List Char) : cs.drop (runLength p cs) = cs.dropWhile p := by
  induction cs with
  | nil => rfl
  | cons c cs ih =>
    by_cases hc : p c = true
    · simpa [runLength, List.takeWhile_cons, hc] using ih
    · simp [runLength, hc]

theorem literalPrefix?_eq_none {cs : List Char}
    (h : ∀ d ∈ (cs.dropWhile isPrefixLetter).head?, isQuote d = false) : literalPrefix? cs = none := by
  rw [literalPrefix?]
  simp only [drop_runLength]
  cases hd : (cs.dropWhile isPrefixLetter).head? with
  | none => simp
  | some d => simp [h d hd]

theorem literalPrefix?_cons_eq_none {c : Char} (cs : List Char) (hletter : isPrefixLetter c = false)
    (hquote : isQuote c = false) : literalPrefix? (c :: cs) = none := by
  refine literalPrefix?_eq_none fun d hd => ?_
  rw [List.dropWhile_cons_of_neg (by simp [hletter])] at hd
  obtain rfl := Option.some.inj hd
  exact hquote

/-- Characters without a quote that an edge follows are no prefix of a string literal. -/
theorem literalPrefix?_append_eq_none {cs rest : List Char} (hcs : ∀ c ∈ cs, isQuote c = false)
    (hrest : Edge rest) : literalPrefix? (cs ++ rest) = none := by
  refine literalPrefix?_eq_none ?_
  induction cs with
  | nil =>
    intro d hd
    cases rest with
    | nil => exact absurd hd nofun
    | cons r rest =>
      have hedge : ∀ d ∈ edges, isPrefixLetter d = false ∧ isQuote d = false := forall_of_all (by decide)
      obtain ⟨hletter, hquote⟩ := hedge r (hrest r rfl)
      rw [List.nil_append, List.dropWhile_cons_of_neg (by simp [hletter])] at hd
      obtain rfl := Option.some.inj hd
      exact hquote
  | cons c cs ih =>
    rw [List.cons_append]
    by_cases hletter : isPrefixLetter c = true
    · rw [List.dropWhile_cons_of_pos hletter]
      exact ih fun d hd => hcs d (List.mem_cons_of_mem c hd)
    · rw [List.dropWhile_cons_of_neg hletter]
      intro d hd
      obtain rfl := Option.some.inj hd
      exact hcs c List.mem_cons_self

/-! ## Numbers -/

theorem numberLength?_eq_none {c : Char} {cs : List Char} (hdigit : c.isDigit = false)
    (hpoint : c = '.' → ∀ d ∈ cs.head?, d.isDigit = false) : numberLength? (c :: cs) = none := by
  have hmarked : markedLength? (c :: cs) = none := by
    unfold markedLength?
    split
    · rename_i h
      obtain ⟨rfl, -⟩ := List.cons.inj h
      exact absurd hdigit (by decide)
    · rfl
  have hmantissa : mantissaLength? (c :: cs) = none := by
    unfold mantissaLength?
    split
    · rename_i d ds h
      obtain ⟨rfl, rfl⟩ := List.cons.inj h
      simp [hpoint rfl d rfl]
    · rename_i h
      obtain ⟨rfl, -⟩ := List.cons.inj h
      simp [hdigit]
    · rfl
  rw [numberLength?, hmarked, hmantissa]

/-- Characters that are cut from some text as a number. -/
def IsNumber (cs : List Char) : Prop := ∃ rest, numberLength? (cs ++ rest) = some cs.length

/-! ## Literals -/

/-- Characters that are cut from some text as a string literal. -/
def IsLiteral (cs : List Char) : Prop :=
  ∃ rest letters n, literalPrefix? (cs ++ rest) = some letters ∧
    quotedLength? ((cs ++ rest).drop letters) = some n ∧ cs.length = letters + n

/-! ## Names -/

theorem startsToken_of_opensName {c : Char} (hc : Text.opensName c = true) : startsToken c = true := by
  rw [startsToken_iff]
  have hne {d : Char} (hd : Text.opensName d = false) : c ≠ d := by
    rintro rfl
    exact absurd (hd.symm.trans hc) nofun
  refine ⟨hne (by decide), hne (by decide), hne (by decide), ?_, hne (by decide)⟩
  simp [isLineBlank, hne (show Text.opensName ' ' = false by decide),
    hne (show Text.opensName '\t' = false by decide), hne (show Text.opensName '\x0c' = false by decide)]

theorem isQuote_of_continuesName {c : Char} (hc : Text.continuesName c = true) : isQuote c = false := by
  have hne {d : Char} (hd : Text.continuesName d = false) : c ≠ d := by
    rintro rfl
    exact absurd (hd.symm.trans hc) nofun
  simp [isQuote, hne (show Text.continuesName '"' = false by decide),
    hne (show Text.continuesName '\'' = false by decide)]

theorem lt_of_isDigit {c : Char} (hc : c.isDigit = true) : c.toNat < 128 := by
  simp only [Char.isDigit, Bool.and_eq_true, decide_eq_true_eq, UInt32.le_iff_toNat_le] at hc
  exact Nat.lt_of_le_of_lt hc.2 (by decide)

/-- What holds of the first 128 characters. -/
theorem of_ascii {p : Char → Prop} (h : ∀ n < 128, p (Char.ofNat n)) {c : Char} (hc : c.toNat < 128) :
    p c := by
  have hp := h c.toNat hc
  rwa [Char.ofNat_toNat] at hp

theorem isDigit_of_opensName {c : Char} (hc : Text.opensName c = true) : c.isDigit = false := by
  cases hd : c.isDigit with
  | false => rfl
  | true =>
    have hno : c.isDigit = true → Text.opensName c = false :=
      of_ascii (p := fun c => c.isDigit = true → Text.opensName c = false) (by decide) (lt_of_isDigit hd)
    exact absurd ((hno hd).symm.trans hc) nofun

theorem runLength_append {p : Char → Bool} {cs rest : List Char} (hcs : ∀ c ∈ cs, p c = true)
    (hrest : ∀ d ∈ rest.head?, p d = false) : runLength p (cs ++ rest) = cs.length := by
  rw [runLength, List.takeWhile_append_of_pos hcs]
  cases rest with
  | nil => simp
  | cons d rest => simp [hrest d rfl]

/-- A name is cut from a text where an edge follows it. -/
theorem leading_word {c : Char} {cs rest : List Char} (hopen : Text.opensName c = true)
    (hname : ∀ d ∈ cs, Text.continuesName d = true) (hrest : Edge rest) :
    leading c (cs ++ rest) = .ok (token (wordKind (c :: cs)), cs.length + 1) := by
  have hprefix : literalPrefix? (c :: (cs ++ rest)) = none := by
    have hquote : ∀ d ∈ c :: cs, isQuote d = false := by
      intro d hd
      rcases List.mem_cons.mp hd with rfl | hd
      · exact isQuote_of_continuesName (Text.continuesName_of_opensName d hopen)
      · exact isQuote_of_continuesName (hname d hd)
    exact literalPrefix?_append_eq_none hquote hrest
  have hnumber : numberLength? (c :: (cs ++ rest)) = none := by
    refine numberLength?_eq_none (isDigit_of_opensName hopen) ?_
    rintro rfl
    exact absurd hopen (by decide)
  have hrun : runLength Text.continuesName (cs ++ rest) = cs.length :=
    runLength_append hname (of_edge (p := fun d => Text.continuesName d = false) (forall_of_all (by decide)) hrest)
  rw [leading_eq (startsToken_of_opensName hopen), hprefix, hnumber]
  simp only [hopen, if_true, hrun]
  rw [Nat.add_comm 1, List.take_succ_cons, List.take_left]

/-! ## Operators -/

theorem prefix_append_iff {a b rest : List Char} (h : ∀ d ∈ rest.head?, ¬b ++ [d] <+: a) :
    a <+: b ++ rest ↔ a <+: b := by
  refine ⟨fun ha => ?_, fun ha => ha.trans (List.prefix_append b rest)⟩
  rcases List.prefix_or_prefix_of_prefix ha (List.prefix_append b rest) with hab | ⟨t, rfl⟩
  · exact hab
  · cases t with
    | nil => simp
    | cons d t =>
      obtain ⟨u, hu⟩ := (List.prefix_append_right_inj b).mp ha
      refine absurd ?_ (h d (by rw [← hu]; rfl))
      exact ⟨t, by simp⟩

theorem symbol_chars (o : Operator) : o.symbol ≠ [] ∧
    ∀ c ∈ o.symbol, startsToken c = true ∧ Text.isBlank c = false := by
  have hall : ∀ p ∈ Operator.all, (p.symbol.all fun c =>
      decide (startsToken c = true ∧ Text.isBlank c = false)) = true := by decide +kernel
  have hmem : o ∈ Operator.all := by cases o <;> decide
  exact ⟨by cases o <;> exact List.cons_ne_nil _ _, forall_of_all (hall o hmem)⟩

/-- Whether an operator is extended by a character to the beginning of another one. -/
def extendedBy (o : Operator) (d : Char) : Bool :=
  Operator.all.any fun p => (o.symbol ++ [d]).isPrefixOf p.symbol

theorem leading?_symbol (o : Operator) : Operator.leading? o.symbol = some o := by
  cases o <;> rfl

theorem leading?_append {o : Operator} {rest : List Char} (h : ∀ d ∈ rest.head?, extendedBy o d = false) :
    Operator.leading? (o.symbol ++ rest) = some o := by
  rw [← leading?_symbol o, Operator.leading?, Operator.leading?]
  refine List.find?_congr fun p hp => ?_
  rw [Bool.eq_iff_iff, List.isPrefixOf_iff_prefix, List.isPrefixOf_iff_prefix]
  refine prefix_append_iff fun d hd hprefix => ?_
  have hno := h d hd
  rw [extendedBy, List.any_eq_false] at hno
  exact hno p hp (List.isPrefixOf_iff_prefix.mpr hprefix)

/-- An operator is cut from a text where nothing follows it that makes it longer. -/
theorem leading_operator {o : Operator} {c : Char} {cs rest : List Char} (hsymbol : o.symbol = c :: cs)
    (hlonger : ∀ d ∈ rest.head?, extendedBy o d = false)
    (hpoint : c = '.' → ∀ d ∈ (cs ++ rest).head?, d.isDigit = false) :
    leading c (cs ++ rest) = .ok (token (.op o), cs.length + 1) := by
  have hfirst : ∀ o : Operator, ∀ d ∈ o.symbol.head?, startsToken d = true ∧ isPrefixLetter d = false ∧
      isQuote d = false ∧ d.isDigit = false ∧ Text.opensName d = false := by
    intro o
    cases o <;> exact forall_of_head?_all (by decide)
  obtain ⟨hstarts, hletter, hquote, hdigit, hopen⟩ := hfirst o c (by rw [hsymbol]; rfl)
  have hleading := leading?_append hlonger
  rw [hsymbol, List.cons_append] at hleading
  rw [leading_eq hstarts, literalPrefix?_cons_eq_none _ hletter hquote,
    numberLength?_eq_none hdigit hpoint]
  simp only [hopen, Bool.false_eq_true, if_false, hleading, hsymbol, List.length_cons]

end TypeWatch.Lexeme
