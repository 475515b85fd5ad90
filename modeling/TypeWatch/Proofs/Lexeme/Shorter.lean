import TypeWatch.Proofs.Lexeme.Boundary

/-! # Literals are longer than what they stand for

An escape takes no fewer bytes than the character that it stands for, and the quotes stand for nothing. So a
string literal has at least two bytes more than its text (`byteLength_literalText`). -/
namespace TypeWatch.Lexeme
set_option autoImplicit false

open Text (byteLength)

/-! ## Bytes -/

theorem length_le_byteLength (cs : List Char) : cs.length ≤ byteLength cs := by
  induction cs with
  | nil => exact Nat.le_refl _
  | cons c cs ih =>
    have hc := c.utf8Size_pos
    rw [List.length_cons, Text.byteLength_cons]
    omega

theorem byteLength_take_add_drop (n : Nat) (cs : List Char) :
    byteLength (cs.take n) + byteLength (cs.drop n) = byteLength cs := by
  rw [← Text.byteLength_append, List.take_append_drop]

theorem byteLength_le_of_sublist {cs ds : List Char} (h : cs.Sublist ds) : byteLength cs ≤ byteLength ds := by
  induction h with
  | slnil => exact Nat.le_refl _
  | cons _ _ ih =>
    rw [Text.byteLength_cons]
    omega
  | cons_cons _ _ ih =>
    rw [Text.byteLength_cons, Text.byteLength_cons]
    omega

theorem size_trimmed (text : String) : (Text.trimmed text).utf8ByteSize ≤ text.utf8ByteSize := by
  rw [← Text.byteLength_toList, ← Text.byteLength_toList, Text.trimmed, String.toList_ofList]
  have hstart : (Text.trimStart text.toList).Sublist text.toList := List.dropWhile_sublist _
  have hend := (List.dropWhile_sublist (l := (Text.trimStart text.toList).reverse) Text.isBlank).reverse
  rw [List.reverse_reverse] at hend
  exact byteLength_le_of_sublist (hend.trans hstart)

/-- Characters that two digits give take two bytes at most. -/
theorem utf8Size_ofNat {n : Nat} (h : n < 256) : (Char.ofNat n).utf8Size ≤ 2 := by
  have hall : ∀ k < 256, (Char.ofNat k).utf8Size ≤ 2 := by decide +kernel
  exact hall n h

theorem hexValue_lt {c : Char} (h : isHexDigit c = true) : hexValue c < 16 := by
  simp only [isHexDigit, Char.isDigit, Bool.or_eq_true, Bool.and_eq_true, decide_eq_true_eq, ge_iff_le,
    Char.le_def, UInt32.le_iff_toNat_le] at h
  simp only [hexValue, Char.isDigit, Bool.and_eq_true, decide_eq_true_eq, ge_iff_le, Char.le_def,
    UInt32.le_iff_toNat_le, Char.toNat]
  have hdigits : '0'.val.toNat = 48 ∧ '9'.val.toNat = 57 ∧ 'a'.val.toNat = 97 ∧ 'f'.val.toNat = 102 ∧
    'A'.val.toNat = 65 ∧ 'F'.val.toNat = 70 := by decide
  split
  · omega
  · split <;> omega

/-! ## Escapes -/

theorem utf8Size_simpleEscape {c e : Char} (h : simpleEscape? c = some e) : e.utf8Size = 1 := by
  unfold simpleEscape? at h
  split at h
  case h_8 => exact absurd h nofun
  all_goals
    obtain rfl := Option.some.inj h
    rfl

/-- A character with digits for its number takes no more bytes than a backslash and the letter before them. -/
theorem utf8Size_digits {n : Nat} (h : n < 256) : (Char.ofNat n).utf8Size ≤ '\\'.utf8Size + 'x'.utf8Size :=
  utf8Size_ofNat h

theorem byteLength_unescape_le (cs : List Char) : byteLength (unescape cs) ≤ byteLength cs := by
  fun_induction unescape cs with
  | case1 cs ih =>
    simp only [Text.byteLength_cons]
    omega
  | case2 a b cs ha hb ih =>
    have hsize := utf8Size_digits (n := 16 * hexValue a + hexValue b) (by
      have := hexValue_lt ha
      have := hexValue_lt hb
      omega)
    simp only [Text.byteLength_cons]
    omega
  | case3 a b cs ha _ ih =>
    have hsize := utf8Size_digits (Nat.lt_trans (hexValue_lt ha) (by decide : 16 < 256))
    rw [Text.byteLength_cons, Text.byteLength_cons, Text.byteLength_cons, Text.byteLength_cons]
    omega
  | case5 a ha =>
    have hsize := utf8Size_digits (Nat.lt_trans (hexValue_lt ha) (by decide : 16 < 256))
    simp only [Text.byteLength_cons, Text.byteLength_nil]
    omega
  | case7 c cs _ _ _ e he ih =>
    have hsize := utf8Size_simpleEscape he
    have hslash : '\\'.utf8Size = 1 := rfl
    simp only [Text.byteLength_cons]
    omega
  | case4 a b cs _ ih =>
    rw [Text.byteLength_cons, Text.byteLength_cons, Text.byteLength_cons, Text.byteLength_cons]
    omega
  | case6 => exact Nat.le_refl _
  | case8 c cs _ _ _ _ ih | case9 c cs _ _ _ _ ih =>
    simp only [Text.byteLength_cons]
    omega
  | case10 => exact Nat.le_refl _

/-! ## Quotes -/

theorem shortBodyLength?_pos {q : Char} {cs : List Char} {n : Nat} (h : shortBodyLength? q cs = some n) : 0 < n := by
  unfold shortBodyLength? at h
  split at h
  · obtain ⟨m, -, rfl⟩ := Option.map_eq_some_iff.mp h
    exact Nat.succ_pos _
  · split at h
    · obtain rfl := Option.some.inj h
      exact Nat.one_pos
    · split at h
      · exact absurd h nofun
      · obtain ⟨m, -, rfl⟩ := Option.map_eq_some_iff.mp h
        exact Nat.succ_pos _
  · exact absurd h nofun

/-- A quoted text has the quotes on both sides. -/
theorem two_le_quotedLength {cs : List Char} {n : Nat} (h : quotedLength? cs = some n) : 2 ≤ n := by
  have hshort {q : Char} {ds : List Char} (hn : (shortBodyLength? q ds).map (· + 1) = some n) : 2 ≤ n := by
    obtain ⟨m, hm, rfl⟩ := Option.map_eq_some_iff.mp hn
    have := shortBodyLength?_pos hm
    omega
  unfold quotedLength? at h
  split at h
  · split at h
    · split at h
      · obtain rfl := Option.some.inj h
        omega
      · exact hshort h
    · exact hshort h
  · exact absurd h nofun

theorem byteLength_unquoted {quoted : List Char} (h : 2 ≤ quoted.length) :
    byteLength (unquoted quoted) + 2 ≤ byteLength quoted := by
  have hmiddle {n : Nat} (hn : 1 ≤ n) :
      byteLength ((quoted.drop n).take (quoted.length - 2 * n)) + 2 ≤ byteLength quoted := by
    have hfront := byteLength_take_add_drop n quoted
    have hback := byteLength_take_add_drop (quoted.length - 2 * n) (quoted.drop n)
    have hopen := length_le_byteLength (quoted.take n)
    have hclose := length_le_byteLength ((quoted.drop n).drop (quoted.length - 2 * n))
    rw [List.length_take] at hopen
    rw [List.length_drop, List.length_drop] at hclose
    omega
  unfold unquoted
  dsimp only
  split
  · split
    · exact hmiddle (by decide)
    · exact hmiddle (by decide)
  · exact hmiddle (by decide)

theorem byteLength_literalText {cs : List Char} (h : IsLiteral cs) :
    byteLength (literalText cs) + 2 ≤ byteLength cs := by
  obtain ⟨rest, letters, n, hletters, hn, hlength⟩ := h
  have htwo := two_le_quotedLength hn
  have hprefix : (cs.takeWhile isPrefixLetter).length ≤ letters := by
    have hrun : runLength isPrefixLetter (cs ++ rest) = letters := by
      unfold literalPrefix? at hletters
      dsimp only at hletters
      split at hletters
      · exact Option.some.inj hletters
      · exact absurd hletters nofun
    rw [← hrun, runLength, List.takeWhile_append]
    split
    · rw [List.length_append]
      omega
    · exact Nat.le_refl _
  have hlong : 2 ≤ (cs.drop (cs.takeWhile isPrefixLetter).length).length := by
    rw [List.length_drop]
    omega
  have hquoted := byteLength_unquoted hlong
  have hdrop := byteLength_take_add_drop (cs.takeWhile isPrefixLetter).length cs
  have hunescape := byteLength_unescape_le (unquoted (cs.drop (cs.takeWhile isPrefixLetter).length))
  unfold literalText
  dsimp only
  split <;> omega

end TypeWatch.Lexeme
