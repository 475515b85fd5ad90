import TypeWatch.Proofs.Lexeme.Quoted
import TypeWatch.Proofs.Token.Spelling
import TypeWatch.Value.Literal
import TypeWatch.Value.Written

/-! # Texts and bytes between quotes

The text of a string and the text of bytes are string literals that stand for them: each character and each
byte has a form of its own between the quotes (`escapes_escapedChar`, `escapes_escapedByte`). -/
namespace TypeWatch.Value
set_option autoImplicit false

open Lexeme (Escapes isHexDigit hexValue)

/-! ## Hexadecimal digits -/

theorem hexPair_eq {n : Nat} (h : n < 256) : hexPair n = [Nat.digitChar (n / 16), Nat.digitChar (n % 16)] := by
  unfold hexPair
  by_cases hn : n < 16
  · rw [Nat.toDigits_of_lt_base hn, Nat.div_eq_of_lt hn, Nat.mod_eq_of_lt hn]
    rfl
  · rw [Nat.toDigits_of_base_le (by decide) (Nat.not_lt.mp hn), Nat.toDigits_of_lt_base (by omega)]
    rfl

theorem hexDigit_digitChar : ∀ n < 16, isHexDigit (Nat.digitChar n) = true ∧ hexValue (Nat.digitChar n) = n := by
  decide

/-! ## Characters and bytes -/

section Escapes

variable {q : Char} {cs text : List Char}

/-- A character by its number. -/
theorem escapes_hexPair {n : Nat} (hn : n < 256) (h : Escapes q cs text) :
    Escapes q (['\\', 'x'] ++ hexPair n ++ cs) (Char.ofNat n :: text) := by
  obtain ⟨ha, hva⟩ := hexDigit_digitChar (n / 16) (by omega)
  obtain ⟨hb, hvb⟩ := hexDigit_digitChar (n % 16) (by omega)
  have hcode := Escapes.code ha hb h
  rw [hva, hvb, Nat.div_add_mod] at hcode
  rw [hexPair_eq hn]
  exact hcode

theorem escapes_escapedChar (hq : Lexeme.isQuote q = true) (c : Char) (h : Escapes q cs text) :
    Escapes q (escapedChar q c ++ cs) (c :: text) := by
  have hsimple {d : Char} (hfeed : d ≠ '\n') (hx : d ≠ 'x') (hd : Lexeme.simpleEscape? d = some c) :
      Escapes q (['\\', d] ++ cs) (c :: text) := .simple hfeed hx hd h
  unfold escapedChar
  split
  · rename_i hc
    exact hsimple (by decide) (by decide) (by rw [hc]; rfl)
  split
  · rename_i hc
    exact hsimple (by decide) (by decide) (by rw [hc]; rfl)
  split
  · rename_i hc
    exact hsimple (by decide) (by decide) (by rw [hc]; rfl)
  split
  · rename_i hc
    exact hsimple (by decide) (by decide) (by rw [hc]; rfl)
  split
  · rename_i hc
    subst hc
    rcases Lexeme.isQuote_cases hq with rfl | rfl <;> exact hsimple (by decide) (by decide) rfl
  split
  · rename_i hcode
    have hescape := escapes_hexPair (n := c.toNat) (by omega) h
    rwa [Char.ofNat_toNat] at hescape
  · rename_i hslash hfeed hreturn _ hquote _
    exact .plain hquote hslash hfeed hreturn h

theorem escapes_text (hq : Lexeme.isQuote q = true) (text : List Char) :
    Escapes q (text.flatMap (escapedChar q)) text := by
  induction text with
  | nil => exact .nil
  | cons c text ih =>
    rw [List.flatMap_cons]
    exact escapes_escapedChar hq c ih

theorem escapes_escapedByte (hq : Lexeme.isQuote q = true) (b : UInt8) (h : Escapes q cs text) :
    Escapes q (escapedByte q b ++ cs) (Char.ofNat b.toNat :: text) := by
  unfold escapedByte
  split
  · exact escapes_escapedChar hq _ h
  · exact escapes_hexPair b.toNat_lt h

/-- The characters with the numbers of some bytes. -/
def octetChars (octets : List UInt8) : List Char := octets.map fun b => Char.ofNat b.toNat

theorem escapes_octets (hq : Lexeme.isQuote q = true) (octets : List UInt8) :
    Escapes q (octets.flatMap (escapedByte q)) (octetChars octets) := by
  induction octets with
  | nil => exact .nil
  | cons b octets ih =>
    rw [List.flatMap_cons]
    exact escapes_escapedByte hq b ih

end Escapes

theorem octets?_octetChars (octets : List UInt8) : Literal.octets? (octetChars octets) = some octets := by
  induction octets with
  | nil => rfl
  | cons b octets ih =>
    have hb : b.toNat < 256 := b.toNat_lt
    have hvalid : b.toNat.isValidChar := Or.inl (Nat.lt_trans hb (by decide))
    have hnumber : (Char.ofNat b.toNat).toNat = b.toNat := by
      rw [Char.ofNat, dif_pos hvalid]
      rfl
    rw [octetChars, List.map_cons, Literal.octets?, hnumber, if_pos hb, ← octetChars, ih]
    simp

/-! ## Literals -/

theorem isQuote_quoteFor (cs : List Char) : Lexeme.isQuote (quoteFor cs) = true := by
  unfold quoteFor
  split <;> decide

section Literals

variable {rest : List Char}

theorem toList_strText (text : String) : (strText text).toList =
    Lexeme.inQuotes (quoteFor text.toList) (text.toList.flatMap (escapedChar (quoteFor text.toList))) := by
  simp [strText, Lexeme.inQuotes]

theorem toList_bytesText (octets : List UInt8) : (bytesText octets).toList =
    ['b'] ++ Lexeme.inQuotes (quoteFor (octetChars octets))
      (octets.flatMap (escapedByte (quoteFor (octetChars octets)))) := by
  simp [bytesText, Lexeme.inQuotes, octetChars]

theorem cuts_strText (text : String) (hrest : Lexeme.Edge rest) :
    Cuts (strText text).toList [(.string, text)] rest := by
  have hq := isQuote_quoteFor text.toList
  have hcuts := cuts_inQuotes (Or.inl rfl) (escapes_text hq text.toList) hq hrest
  rw [String.ofList_toList] at hcuts
  rwa [toList_strText]

theorem cuts_bytesText (octets : List UInt8) (hrest : Lexeme.Edge rest) :
    Cuts (bytesText octets).toList [(.bytes, String.ofList (octetChars octets))] rest := by
  have hq := isQuote_quoteFor (octetChars octets)
  rw [toList_bytesText]
  exact cuts_inQuotes (Or.inr (Or.inl rfl)) (escapes_octets hq octets) hq hrest

end Literals

end TypeWatch.Value
