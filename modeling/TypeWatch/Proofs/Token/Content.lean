import TypeWatch.Proofs.Syntax.Plain
import TypeWatch.Proofs.Token.Order

/-! # What the tokens of a text are

The tokens of a text, apart from the layout, are the words that the text is cut into (`tokenize_content`).
Those that are names or numbers are spelled as such. -/
namespace TypeWatch
set_option autoImplicit false

/-! ## Lexemes -/

namespace Lexeme

/-- Characters that may be those of a token of a kind. -/
structure Spells (kind : TokenKind) (cs : List Char) : Prop where
  name : kind = .name → IsName (String.ofList cs)
  number : kind = .number → IsNumber cs
  literal : kind.isString = true → IsLiteral cs
  unmarked : kind.isString = false → '#' ∉ cs

theorem isString_literalKind (letters : List Char) : (literalKind letters).isString = true := by
  unfold literalKind
  split
  · rfl
  · split <;> rfl

theorem spells_literal {text : List Char} {letters n : Nat} (hletters : literalPrefix? text = some letters)
    (hn : quotedLength? (text.drop letters) = some n) :
    Spells (literalKind (text.take letters)) (text.take (letters + n)) := by
  have hstring := isString_literalKind (text.take letters)
  obtain ⟨hpos, d, hd, -⟩ := literal_ends hletters hn
  have hlt := (List.getElem?_eq_some_iff.mp hd).1
  have hlength : (text.take (letters + n)).length = letters + n := by
    rw [List.length_take]
    omega
  refine ⟨fun hkind => ?_, fun hkind => ?_, fun _ => ⟨text.drop (letters + n), letters, n, ?_, ?_, hlength⟩,
    fun hno => absurd (hstring.symm.trans hno) nofun⟩
  · exact absurd (hkind ▸ hstring) nofun
  · exact absurd (hkind ▸ hstring) nofun
  · rwa [List.take_append_drop]
  · rwa [List.take_append_drop]

theorem spells_word {c : Char} (hc : Text.opensName c = true) (cs : List Char) :
    Spells (wordKind (c :: cs.takeWhile Text.continuesName)) (c :: cs.takeWhile Text.continuesName) := by
  have hchars : ∀ d ∈ c :: cs.takeWhile Text.continuesName, Text.continuesName d = true :=
    List.forall_mem_cons.mpr ⟨Text.continuesName_of_opensName c hc, List.all_eq_true.mp List.all_takeWhile⟩
  have hmark : '#' ∉ c :: cs.takeWhile Text.continuesName := fun h => absurd (hchars '#' h) (by decide)
  generalize hword : c :: cs.takeWhile Text.continuesName = word at hchars hmark ⊢
  unfold wordKind
  split
  · exact ⟨nofun, nofun, nofun, fun _ => hmark⟩
  · rename_i hfree
    refine ⟨fun _ => ⟨⟨c, cs.takeWhile Text.continuesName, ?_, hc⟩, ?_, hfree⟩, nofun, nofun, fun _ => hmark⟩
    · rw [String.toList_ofList, hword]
    · rwa [String.toList_ofList]

theorem spells_number {cs : List Char} {n : Nat} (h : numberLength? cs = some n) : Spells .number (cs.take n) := by
  obtain ⟨hn, d, hd, -⟩ := numberLength?_ends h
  have hlt := (List.getElem?_eq_some_iff.mp hd).1
  have hnumber : IsNumber (cs.take n) := by
    refine ⟨cs.drop n, ?_⟩
    rw [List.take_append_drop, h, List.length_take, Nat.min_eq_left (by omega)]
  exact ⟨nofun, fun _ => hnumber, nofun, fun _ hmark => absurd (hnumber.chars '#' hmark) (by decide)⟩

theorem take_of_leading? {text : List Char} {o : Operator} (h : Operator.leading? text = some o) :
    text.take o.symbol.length = o.symbol := by
  rw [Operator.leading?] at h
  have hprefix := List.find?_some h
  obtain ⟨rest, rfl⟩ := List.isPrefixOf_iff_prefix.mp hprefix
  exact List.take_left

theorem spells_operator {text : List Char} {o : Operator} (h : Operator.leading? text = some o) :
    Spells (.op o) (text.take o.symbol.length) := by
  rw [take_of_leading? h]
  exact ⟨nofun, nofun, nofun, fun _ hmark => absurd ((symbol_chars o).2 '#' hmark).1 (by decide)⟩

theorem spells_of_leading {c : Char} {cs : List Char} {kind : TokenKind} {n : Nat}
    (h : leading c cs = .ok (.token kind, n)) : Spells kind ((c :: cs).take n) := by
  cases leads_of_leading h with
  | literal hletters hn => exact spells_literal hletters hn
  | number hn => exact spells_number hn
  | word _ hc =>
    rw [List.take_succ_cons, take_runLength]
    exact spells_word hc cs
  | operator ho => exact spells_operator ho

end Lexeme

theorem Piece.spells_of_split (cs : List Char) :
    ∀ p ∈ (split cs).1, ∀ kind, p.lexeme = .token kind → Lexeme.Spells kind p.chars := by
  fun_induction split cs with
  | case1 => simp
  | case2 c cs fault h => simp
  | case3 c cs lexeme n h pieces fault hs ih =>
    intro p hp kind hkind
    rcases List.mem_cons.mp hp with rfl | hp
    · have hlexeme : lexeme = .token kind := hkind
      subst hlexeme
      have hpos := (Lexeme.leading_ok h).2 kind rfl
      obtain ⟨k, rfl⟩ : ∃ k, n = k + 1 := ⟨n - 1, by have := hpos.2.1; omega⟩
      exact Lexeme.spells_of_leading h
    · rw [hs] at ih
      exact ih p hp kind hkind

/-! ## Layout -/

namespace Layout

/-- The tokens that are no layout. -/
def proper (tokens : List Token) : List Token := tokens.filter fun t => !t.kind.isLayout

theorem proper_eq_nil {tokens : List Token} (h : ∀ t ∈ tokens, t.kind.isLayout = true) : proper tokens = [] := by
  refine List.filter_eq_nil_iff.mpr fun t ht => ?_
  simp [h t ht]

theorem proper_append (ts us : List Token) : proper (ts ++ us) = proper ts ++ proper us :=
  List.filter_append ts us

theorem closeLine_eq (s : State) : closeLine s = [] ∨ closeLine s = [Token.layout .newline s.position] := by
  unfold closeLine
  split
  · exact Or.inr rfl
  · exact Or.inl rfl

/-- The token that a piece is at a place, if it is one. -/
def tokenAt? (p : Position) (piece : Piece) : Option Token :=
  match piece.lexeme with
  | .token kind => some ⟨kind, piece.text, ⟨p, p.after piece.chars⟩⟩
  | _ => none

/-- The tokens of pieces that stand side by side. -/
def tokensFrom (p : Position) : List Piece → List Token
  | [] => []
  | piece :: pieces => (tokenAt? p piece).toList ++ tokensFrom (p.after piece.chars) pieces

theorem step_proper {s s' : State} {piece : Piece} {tokens : List Token} (hw : piece.WellFormed)
    (h : step s piece = .ok (s', tokens)) : proper tokens = (tokenAt? s.position piece).toList := by
  cases steps_of_step h with
  | lineEnd chars =>
    rcases closeLine_eq s with hclose | hclose <;> rw [hclose] <;> rfl
  | joined | blanks | comment => rfl
  | continuation chars hopen => exact proper_eq_nil fun t ht => (openLine_ok hopen).2.isLayout ht
  | token kind chars hopen =>
    obtain ⟨hposition, hmarks⟩ := openLine_ok hopen
    have hlayout := (hw.token kind rfl).1
    rw [proper_append, proper_eq_nil fun t ht => hmarks.isLayout ht, hposition]
    simp [proper, hlayout, tokenAt?]

theorem word_tokensFrom (p : Position) (pieces : List Piece) :
    (tokensFrom p pieces).map Token.word = pieces.filterMap Piece.word? := by
  induction pieces generalizing p with
  | nil => rfl
  | cons piece pieces ih =>
    obtain ⟨lexeme, chars⟩ := piece
    rw [tokensFrom, List.map_append, ih, List.filterMap_cons]
    cases lexeme <;> rfl

/-- The tokens of some pieces are those that the pieces are, apart from the layout. -/
theorem run_proper {s : State} {fault : Option Fault} {pieces : List Piece} {tokens : List Token}
    (hw : ∀ p ∈ pieces, p.WellFormed) (h : run s fault pieces = .ok tokens) :
    fault = none ∧ proper tokens = tokensFrom s.position pieces := by
  induction pieces generalizing s tokens with
  | nil =>
    obtain ⟨rfl, rfl⟩ := run_nil_ok h
    exact ⟨rfl, proper_eq_nil fun t ht => (finish_layout s t ht).1⟩
  | cons piece pieces ih =>
    obtain ⟨s', first, others, hstep, hrest, rfl⟩ := run_cons_ok h
    have hpiece := hw piece List.mem_cons_self
    obtain ⟨hfault, hothers⟩ := ih (fun p hp => hw p (List.mem_cons_of_mem piece hp)) hrest
    refine ⟨hfault, ?_⟩
    rw [proper_append, step_proper hpiece hstep, hothers, (step_placed hpiece hstep).1, tokensFrom]

theorem step_ne_end {s s' : State} {piece : Piece} {tokens : List Token} (hw : piece.WellFormed)
    (h : step s piece = .ok (s', tokens)) : ∀ t ∈ tokens, t.kind ≠ .endOfInput := by
  cases steps_of_step h with
  | lineEnd chars =>
    rcases closeLine_eq s with hclose | hclose <;> rw [hclose]
    · exact List.forall_mem_nil _
    · exact List.forall_mem_singleton.mpr nofun
  | joined | blanks | comment => exact List.forall_mem_nil _
  | continuation chars hopen => exact fun t ht => (openLine_ok hopen).2.ne_end ht
  | token kind chars hopen =>
    refine List.forall_mem_append.mpr ⟨fun t ht => (openLine_ok hopen).2.ne_end ht, ?_⟩
    refine List.forall_mem_singleton.mpr ?_
    rintro rfl
    exact absurd (hw.token _ rfl).1 nofun

/-- Only the last token ends the stream. -/
theorem run_ends {s : State} {fault : Option Fault} {pieces : List Piece} {tokens : List Token}
    (hw : ∀ p ∈ pieces, p.WellFormed) (h : run s fault pieces = .ok tokens) :
    ∃ body stop, tokens = body ++ [stop] ∧ stop.kind = .endOfInput ∧ ∀ t ∈ body, t.kind ≠ .endOfInput := by
  induction pieces generalizing s tokens with
  | nil =>
    obtain ⟨-, rfl⟩ := run_nil_ok h
    refine ⟨_, _, rfl, rfl, List.forall_mem_append.mpr ⟨?_, ?_⟩⟩
    · rcases closeLine_eq s with hclose | hclose <;> rw [hclose]
      · exact List.forall_mem_nil _
      · exact List.forall_mem_singleton.mpr nofun
    · intro t ht
      obtain ⟨_, _, rfl⟩ := List.mem_map.mp ht
      exact nofun
  | cons piece pieces ih =>
    obtain ⟨s', first, others, hstep, hrest, rfl⟩ := run_cons_ok h
    obtain ⟨body, stop, rfl, hstop, hbody⟩ := ih (fun p hp => hw p (List.mem_cons_of_mem piece hp)) hrest
    refine ⟨first ++ body, stop, (List.append_assoc _ _ _).symm, hstop, ?_⟩
    exact List.forall_mem_append.mpr ⟨step_ne_end (hw piece List.mem_cons_self) hstep, hbody⟩

end Layout

/-! ## Texts -/

/-- A text that is cut into pieces up to its end, of which the tokens are plain. -/
structure Clean (cs : List Char) : Prop where
  whole : (Piece.split cs).2 = none
  plain : ∀ p ∈ (Piece.split cs).1, ∀ w ∈ p.word?, w.1.isPlain = true

section Texts

variable {source : String} {tokens : List Token}

theorem tokenize_content (h : tokenize source = .ok tokens) : (Piece.split source.toList).2 = none ∧
    (Layout.proper tokens).map Token.word = (Piece.split source.toList).1.filterMap Piece.word? :=
by
  obtain ⟨hwhole, hproper⟩ := Layout.run_proper (Piece.wellFormed_split source.toList) h
  rw [hproper, Layout.word_tokensFrom]
  exact ⟨hwhole, rfl⟩

theorem tokenize_ends (h : tokenize source = .ok tokens) :
    ∃ body stop, tokens = body ++ [stop] ∧ stop.kind = .endOfInput ∧ ∀ t ∈ body, t.kind ≠ .endOfInput :=
  Layout.run_ends (Piece.wellFormed_split source.toList) h

/-- The names and the numbers of a text are names and numbers. -/
theorem tokenize_spelled (h : tokenize source = .ok tokens) : ∀ t ∈ tokens, t.Spelled := by
  intro t ht
  cases hlayout : t.kind.isLayout with
  | true => exact ⟨fun hk => absurd (hk ▸ hlayout) (by rintro ⟨⟩), fun hk => absurd (hk ▸ hlayout) (by rintro ⟨⟩)⟩
  | false =>
    have hmem : t.word ∈ (Layout.proper tokens).map Token.word :=
      List.mem_map_of_mem (List.mem_filter.mpr ⟨ht, by simp [hlayout]⟩)
    rw [(tokenize_content h).2] at hmem
    obtain ⟨p, hp, hword⟩ := List.mem_filterMap.mp hmem
    unfold Piece.word? at hword
    split at hword
    · rename_i kind hkind
      obtain ⟨rfl, htext⟩ := Prod.mk.inj (Option.some.inj hword)
      have hspells := Piece.spells_of_split source.toList p hp _ hkind
      have htext' (hno : t.kind.isString = false) : t.text = String.ofList p.chars := by
        rw [← htext, Piece.text, hkind]
        simp [hno]
      constructor
      · intro hk
        rw [htext' (by rw [hk]; rfl)]
        exact hspells.name hk
      · intro hk
        rw [htext' (by rw [hk]; rfl), String.toList_ofList]
        exact hspells.number hk
    · cases hword

/-- A text whose tokens are all plain. -/
theorem clean_of_tokens (h : tokenize source = .ok tokens)
    (hplain : ∀ t ∈ tokens, t.kind.isLayout = false → t.kind.isPlain = true) : Clean source.toList := by
  obtain ⟨hwhole, hwords⟩ := tokenize_content h
  refine ⟨hwhole, fun p hp w hw => ?_⟩
  have hmem : w ∈ (Piece.split source.toList).1.filterMap Piece.word? := List.mem_filterMap.mpr ⟨p, hp, hw⟩
  rw [← hwords] at hmem
  obtain ⟨t, ht, rfl⟩ := List.mem_map.mp hmem
  obtain ⟨ht, hlayout⟩ := List.mem_filter.mp ht
  exact hplain t ht (by simpa using hlayout)

end Texts

end TypeWatch
