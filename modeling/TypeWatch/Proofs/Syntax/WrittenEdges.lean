import TypeWatch.Proofs.Syntax.Tight

/-! # First and last characters of written forms

No white space stands at the ends of the written form of an expression, and its first character is none that
makes a longer operator of one before it, except for points and stars. -/
namespace TypeWatch
set_option autoImplicit false

/-! ## First and last characters -/

/-- The characters that written forms begin with. -/
def opensWritten (c : Char) : Bool :=
  Text.opensName c || c.isDigit || ['\'', '.', ':', '(', '[', '\x7b', '*', '-', '+', '~'].contains c

theorem blanks_disjoint : ∀ r ∈ Text.blanks, ∀ s ∈ Text.nameOpeners ++ Text.nameExtenders,
    r.2 < s.1 ∨ s.2 < r.1 := by
  decide +kernel

/-- White space is in no name. -/
theorem isBlank_of_continuesName {c : Char} (hc : Text.continuesName c = true) : Text.isBlank c = false := by
  by_cases hascii : c.toNat < 128
  · exact Lexeme.of_ascii (p := fun c => Text.continuesName c = true → Text.isBlank c = false) (by decide)
      hascii hc
  rw [Text.continuesName, if_neg hascii, Bool.or_eq_true] at hc
  have hname : ∃ s ∈ Text.nameOpeners ++ Text.nameExtenders, s.1 ≤ c.toNat ∧ c.toNat ≤ s.2 := by
    rw [Text.CodeRanges.holds_iff, Text.CodeRanges.holds_iff] at hc
    rcases hc with ⟨s, hs, hle⟩ | ⟨s, hs, hle⟩
    · exact ⟨s, List.mem_append_left _ hs, hle⟩
    · exact ⟨s, List.mem_append_right _ hs, hle⟩
  obtain ⟨s, hs, hle, hle'⟩ := hname
  cases hblank : Text.isBlank c with
  | false => rfl
  | true =>
    obtain ⟨r, hr, hge, hge'⟩ := (Text.CodeRanges.holds_iff Text.blanks c).mp hblank
    have hdisjoint := blanks_disjoint r hr s hs
    omega

theorem opensWritten_of_opensName {c : Char} (hc : Text.opensName c = true) : opensWritten c = true := by
  simp [opensWritten, hc]

/-- What holds of all characters that written forms begin with. -/
theorem of_opensWritten {p : Char → Prop} (hname : ∀ c, Text.opensName c = true → p c)
    (hdigit : ∀ n < 128, (Char.ofNat n).isDigit = true → p (Char.ofNat n))
    (hsign : ∀ c ∈ ['\'', '.', ':', '(', '[', '\x7b', '*', '-', '+', '~'], p c) {c : Char}
    (hc : opensWritten c = true) : p c := by
  simp only [opensWritten, Bool.or_eq_true, List.contains_iff_mem] at hc
  rcases hc with (hc | hc) | hc
  · exact hname c hc
  · exact Lexeme.of_ascii (p := fun c => c.isDigit = true → p c) hdigit (Lexeme.lt_of_isDigit hc) hc
  · exact hsign c hc

theorem startsToken_of_opensWritten {c : Char} (hc : opensWritten c = true) : Lexeme.startsToken c = true :=
  of_opensWritten (fun _ => Lexeme.startsToken_of_opensName) (by decide) (Lexeme.forall_of_all (by decide)) hc

theorem isBlank_of_opensWritten {c : Char} (hc : opensWritten c = true) : Text.isBlank c = false :=
  of_opensWritten (fun c hc => isBlank_of_continuesName (Text.continuesName_of_opensName c hc)) (by decide)
    (Lexeme.forall_of_all (by decide)) hc

theorem isLineBlank_of_opensWritten {c : Char} (hc : opensWritten c = true) : Lexeme.isLineBlank c = false :=
  Lexeme.isLineBlank_of_startsToken (startsToken_of_opensWritten hc)

theorem not_mem_extenders {c : Char} (hc : Text.opensName c = true) : c ∉ extenders := by
  intro hmem
  have hno : ∀ d ∈ extenders, Text.opensName d = false := Lexeme.forall_of_all (by decide)
  exact absurd ((hno c hmem).symm.trans hc) nofun

theorem mem_extenders {c : Char} (hc : opensWritten c = true) (hmem : c ∈ extenders) : c = '.' ∨ c = '*' := by
  refine of_opensWritten (p := fun c => c ∈ extenders → c = '.' ∨ c = '*') ?_ (by decide)
    (Lexeme.forall_of_all (by decide)) hc hmem
  exact fun c hname hmem => absurd hmem (not_mem_extenders hname)

namespace Expr

/-- The first character of the written form, which is a star only if the first word is one. A mapping of
arguments, which is not tight, begins with two stars. -/
def Begins (e : Expr) : Prop := ∃ c cs, e.written.toList = c :: cs ∧ opensWritten c = true ∧
  (c = '*' → e.isTight = true → e.beginsWith (.op .star) = true)

theorem Begins.append {e l : Expr} (h : l.Begins) {text : String} {ws : List Word}
    (htight : e.isTight = true → l.isTight = true) (hwritten : e.written = l.written ++ text)
    (hwords : e.words = l.words ++ ws) : e.Begins := by
  obtain ⟨c, cs, hl, hc, hstar⟩ := h
  refine ⟨c, cs ++ text.toList, by rw [hwritten, String.toList_append, hl, List.cons_append], hc, ?_⟩
  intro heq ht
  have hbegins := hstar heq (htight ht)
  unfold beginsWith at hbegins ⊢
  rw [hwords]
  cases hws : l.words with
  | nil => simp [hws] at hbegins
  | cons w rest => simpa [hws] using hbegins

theorem begins_of {e : Expr} (c : Char) (hwritten : e.written.toList.head? = some c)
    (hc : opensWritten c = true) (hstar : c ≠ '*') : e.Begins := by
  obtain ⟨cs, hcs⟩ := List.head?_eq_some_iff.mp hwritten
  exact ⟨c, cs, hcs, hc, fun heq => absurd heq hstar⟩

theorem head?_parenthesized (parts : List String) : (parenthesized parts).toList.head? = some '(' := by
  unfold parenthesized
  split <;> simp

theorem begins_constant (s : Span) (value : Constant) (hs : (constant s value).Spelled) :
    (constant s value).Begins := by
  cases value with
  | number literal =>
    have hnumber : Lexeme.IsNumber literal.toList := by rwa [Spelled] at hs
    obtain ⟨c, cs, hliteral⟩ := List.exists_cons_of_ne_nil (List.length_pos_iff.mp hnumber.pos)
    rw [hliteral] at hnumber
    have hc : opensWritten c = true ∧ c ≠ '*' := by
      rcases hnumber.first with hdigit | rfl
      · refine ⟨by simp [opensWritten, hdigit], ?_⟩
        rintro rfl
        exact absurd hdigit (by decide)
      · decide
    exact begins_of c (by simp [written, Constant.written, hliteral]) hc.1 hc.2
  | string text => exact begins_of '\'' (by simp [written, Constant.written, Constant.quoted]) (by decide) (by decide)
  | bytes text => exact begins_of 'b' (by simp [written, Constant.written]) (by decide) (by decide)
  | formatString text => exact begins_of 'f' (by simp [written, Constant.written]) (by decide) (by decide)
  | noneWord => exact begins_of 'N' (by simp [written, Constant.written]) (by decide) (by decide)
  | trueWord => exact begins_of 'T' (by simp [written, Constant.written]) (by decide) (by decide)
  | falseWord => exact begins_of 'F' (by simp [written, Constant.written]) (by decide) (by decide)
  | ellipsis => exact begins_of '.' (by simp [written, Constant.written]) (by decide) (by decide)

theorem begins_written : ∀ e : Expr, e.Spelled → e.Begins
  | name s id, hs => by
    rw [Spelled] at hs
    obtain ⟨c, cs, hid, hopen⟩ := hs.opens
    refine ⟨c, cs, by rw [written, hid], opensWritten_of_opensName hopen, ?_⟩
    rintro rfl
    exact absurd hopen (by decide)
  | constant s value, hs => begins_constant s value hs
  | member s value attr, hs => by
    rw [Spelled] at hs
    refine (begins_written value hs.1).append (fun h => ?_) (by rw [written, String.append_assoc]) (by rw [words])
    simp only [isTight, Bool.and_eq_true] at h
    exact h.1.1
  | subscript s value index, hs => by
    have htight (h : (subscript s value index).isTight = true) : value.isTight = true := by
      cases index
      all_goals
        simp only [isTight, Bool.and_eq_true] at h
        exact h.1.1
    have hwritten : ∃ text, (subscript s value index).written = value.written ++ text := by
      cases index <;> exact ⟨_, by simp only [written, String.append_assoc]; rfl⟩
    have hwords : ∃ ws, (subscript s value index).words = value.words ++ ws := by
      cases index
      case tuple => exact ⟨_, by rw [words]⟩
      all_goals exact ⟨_, by rw [words]; rintro _ _ ⟨⟩⟩
    rw [Spelled] at hs
    exact (begins_written value hs.1).append htight hwritten.choose_spec hwords.choose_spec
  | slice s none upper step, _ => begins_of ':' (by simp [written, writtenOption]) (by decide) (by decide)
  | slice s (some e) upper step, hs => by
    rw [Spelled, spelledOption] at hs
    exact (begins_written e hs.1).append (fun h => absurd h (by rintro ⟨⟩))
      (by simp only [written, writtenOption, String.append_assoc]; rfl) (by rw [words, wordsOption])
  | keyword s none value, _ =>
    ⟨'*', '*' :: value.written.toList, by simp [written, unpacked], by decide, fun _ h => absurd h (by rintro ⟨⟩)⟩
  | keyword s (some label) value, hs => by
    rw [Spelled] at hs
    obtain ⟨c, cs, hlabel, hopen⟩ := (hs.1 label rfl).opens
    refine ⟨c, cs ++ '=' :: value.written.toList, by simp [written, hlabel], opensWritten_of_opensName hopen,
      fun _ h => absurd h (by rintro ⟨⟩)⟩
  | tuple s elements, _ => begins_of '(' (by rw [written, head?_parenthesized]) (by decide) (by decide)
  | list s elements, _ => begins_of '[' (by simp [written]) (by decide) (by decide)
  | set s elements, _ => begins_of '\x7b' (by simp [written, braced]) (by decide) (by decide)
  | dict s entries, _ => begins_of '\x7b' (by simp [written, braced]) (by decide) (by decide)
  | call s callee arguments, hs => by
    rw [Spelled] at hs
    refine (begins_written callee hs.1).append (fun h => ?_) (by simp only [written, String.append_assoc]; rfl)
      (by rw [words])
    simp only [isTight, Bool.and_eq_true] at h
    exact h.1.1
  | starred s value, _ =>
    ⟨'*', value.written.toList, by simp [written], by decide, fun _ _ => by simp [beginsWith, words, opWord]⟩
  | binary s left op right, hs => by
    rw [Spelled] at hs
    refine (begins_written left hs.1).append (fun h => ?_) (by simp only [written, String.append_assoc]; rfl)
      (by rw [words])
    simp only [isTight, Bool.and_eq_true] at h
    exact h.1.1.1.1
  | unary s op operand, _ => by
    cases op with
    | negate => exact begins_of '-' (by simp [written, UnaryOp.lead, UnaryOp.symbol]) (by decide) (by decide)
    | keep => exact begins_of '+' (by simp [written, UnaryOp.lead, UnaryOp.symbol]) (by decide) (by decide)
    | invert => exact begins_of '~' (by simp [written, UnaryOp.lead, UnaryOp.symbol]) (by decide) (by decide)
    | not => exact begins_of 'n' (by simp [written, UnaryOp.lead]) (by decide) (by decide)
  | lambda s parameters body, _ => by
    refine begins_of 'l' ?_ (by decide) (by decide)
    rw [written]
    split <;> simp
  | conditional s test body orelse, hs => by
    rw [Spelled] at hs
    refine (begins_written body hs.2.1).append (fun h => ?_) (by simp only [written, String.append_assoc]; rfl)
      (by rw [words])
    simp only [isTight, Bool.and_eq_true] at h
    exact h.1.1.1.1
  | comprehension s kind element value clauses, _ => by
    cases kind with
    | list => exact begins_of '[' (by cases value <;> simp [written, enclosed]) (by decide) (by decide)
    | generator => exact begins_of '(' (by cases value <;> simp [written, enclosed]) (by decide) (by decide)
    | set => exact begins_of '\x7b' (by cases value <;> simp [written, enclosed, braced]) (by decide) (by decide)
    | dict => exact begins_of '\x7b' (by cases value <;> simp [written, enclosed, braced]) (by decide) (by decide)
  | named s target value, _ => begins_of '(' (by simp [written]) (by decide) (by decide)
  | await s value, _ => begins_of 'a' (by simp [written]) (by decide) (by decide)
  | yield s value delegates, _ => by
    refine begins_of '(' ?_ (by decide) (by decide)
    cases value <;> cases delegates <;> simp [written]

/-- Whether the last character of a text is no white space. -/
def Closes (text : String) : Prop := ∃ d, text.toList.getLast? = some d ∧ Text.isBlank d = false

theorem Closes.append {tail : String} (h : Closes tail) (text : String) : Closes (text ++ tail) := by
  obtain ⟨d, hd, hblank⟩ := h
  refine ⟨d, ?_, hblank⟩
  rw [String.toList_append, List.getLast?_append, hd]
  rfl

theorem closes_bracket {text : String} (h : text = ")" ∨ text = "]" ∨ text = "\x7d") : Closes text := by
  rcases h with rfl | rfl | rfl <;> exact ⟨_, rfl, by decide⟩

theorem closes_word {text : String} {c : Char} {cs : List Char} (htext : text.toList = c :: cs)
    (h : ∀ d ∈ text.toList, Text.continuesName d = true) : Closes text := by
  have hne : text.toList ≠ [] := by rw [htext]; exact List.cons_ne_nil c cs
  refine ⟨text.toList.getLast hne, List.getLast?_eq_some_getLast hne, ?_⟩
  exact isBlank_of_continuesName (h _ (List.getLast_mem hne))

theorem closes_name {id : String} (hid : IsName id) : Closes id := by
  obtain ⟨c, cs, htext, -⟩ := hid.opens
  exact closes_word htext hid.continues

theorem closes_quoted (text : String) : Closes (Constant.quoted text) := by
  refine ⟨'\'', ?_, by decide⟩
  rw [Constant.quoted, String.toList_ofList, List.getLast?_append]
  rfl

theorem closes_constant (s : Span) (value : Constant) (hs : (constant s value).Spelled) :
    Closes value.written := by
  cases value with
  | number literal =>
    have hnumber : Lexeme.IsNumber literal.toList := by rwa [Spelled] at hs
    have hne := List.length_pos_iff.mp hnumber.pos
    exact ⟨literal.toList.getLast hne, List.getLast?_eq_some_getLast hne,
      Lexeme.isBlank_of_isNumberChar (hnumber.chars _ (List.getLast_mem hne))⟩
  | string text => exact closes_quoted text
  | bytes text => exact (closes_quoted text).append "b"
  | formatString text => exact (closes_quoted text).append "f"
  | _ => exact ⟨_, rfl, by decide⟩

theorem closes_parenthesized (parts : List String) : Closes (parenthesized parts) := by
  unfold parenthesized
  split
  · exact Closes.append (⟨')', rfl, by decide⟩ : Closes ",)") _
  · exact (closes_bracket (Or.inl rfl)).append _

theorem closes_braced (inner : String) : Closes (braced inner) :=
  (closes_bracket (Or.inr (Or.inr rfl))).append _

theorem closes_written : ∀ e : Expr, e.Spelled → Closes e.written
  | name s id, hs => by
    rw [Spelled] at hs
    exact closes_name hs
  | constant s value, hs => closes_constant s value hs
  | member s value attr, hs => by
    rw [Spelled] at hs
    rw [written]
    exact (closes_name hs.2).append _
  | subscript s value index, _ => by
    cases index
    all_goals exact (closes_bracket (Or.inr (Or.inl rfl))).append _
  | slice s lower upper (some e), hs => by
    simp only [Spelled, spelledOption] at hs
    rw [written]
    exact ((closes_written e hs.2.2).append ":").append _
  | slice s lower (some e) none, hs => by
    simp only [Spelled, spelledOption] at hs
    rw [written, writtenStep, String.append_empty]
    exact (closes_written e hs.2.1).append _
  | slice s lower none none, _ => by
    rw [written, writtenStep, writtenOption, String.append_empty, String.append_empty]
    exact Closes.append ⟨':', rfl, by decide⟩ _
  | keyword s none value, hs => by
    rw [Spelled] at hs
    exact (closes_written value hs.2).append _
  | keyword s (some label) value, hs => by
    rw [Spelled] at hs
    exact (closes_written value hs.2).append _
  | tuple s elements, _ => closes_parenthesized _
  | list s elements, _ => (closes_bracket (Or.inr (Or.inl rfl))).append _
  | set s elements, _ => closes_braced _
  | dict s entries, _ => closes_braced _
  | call s callee arguments, _ => (closes_bracket (Or.inl rfl)).append _
  | starred s value, hs => by
    rw [Spelled] at hs
    exact (closes_written value hs).append _
  | binary s left op right, hs => by
    rw [Spelled] at hs
    exact (closes_written right hs.2).append _
  | unary s op operand, hs => by
    rw [Spelled] at hs
    exact (closes_written operand hs).append _
  | lambda s parameters body, hs => by
    rw [Spelled] at hs
    have hbody := closes_written body hs.2
    rw [written]
    split
    · exact hbody.append _
    · exact hbody.append _
  | conditional s test body orelse, hs => by
    rw [Spelled] at hs
    exact (closes_written orelse hs.2.2).append _
  | comprehension s kind element value clauses, _ => by
    cases value <;> cases kind
    case none.list | some.list => exact (closes_bracket (Or.inr (Or.inl rfl))).append _
    case none.generator | some.generator => exact (closes_bracket (Or.inl rfl)).append _
    all_goals exact closes_braced _
  | named s target value, _ => (closes_bracket (Or.inl rfl)).append _
  | await s value, hs => by
    rw [Spelled] at hs
    exact (closes_written value hs).append _
  | yield s value delegates, _ => by
    cases value <;> cases delegates
    case some.true | some.false => exact (closes_bracket (Or.inl rfl)).append _
    all_goals exact ⟨')', by simp [written], by decide⟩

end Expr

end TypeWatch
