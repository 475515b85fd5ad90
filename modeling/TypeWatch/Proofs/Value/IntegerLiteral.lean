import TypeWatch.Proofs.Lexeme.Radix
import TypeWatch.Proofs.Value.Evaluated
import TypeWatch.Proofs.Value.RoundTrip

/-! # What integer literals stand for

An integer literal stands for the number that its digits make, if that has a place in 64 bits, and with a sign before
it for the opposite (`Literal.value_integer`, `Literal.value_negated`). The opposite is taken of a number that was read
before, so the least integer has no literal. -/
namespace TypeWatch
set_option autoImplicit false

open Lexeme (IsInteger IsDigit Written radix digits magnitude)

/-! ## Numbers -/

/-- Integer literals that stand for a number: there is a digit, and no decimal digit has zeros before it. -/
structure Lexeme.Denotes (cs : List Char) : Prop where
  digits : digits cs ≠ []
  leading : radix cs = 10 → (Lexeme.digits cs).head? = some '0' → ∀ d ∈ Lexeme.digits cs, d = '0'

namespace Literal

variable {cs : List Char}

theorem integerValue?_of_lt {n : Nat} (h : n < 2 ^ 63) :
    ∃ k : Int64, k.toInt = n ∧ integerValue? n = some (.int k) := by
  have hvalue : (Int64.ofInt n).toInt = n := Int64.toInt_ofInt_of_le (by omega) (by omega)
  exact ⟨Int64.ofInt n, hvalue, if_pos hvalue⟩

theorem integerValue?_of_le {n : Nat} (h : 2 ^ 63 ≤ n) : integerValue? n = none := by
  refine if_neg fun hvalue => ?_
  have hlt := Int64.toInt_lt (Int64.ofInt n)
  omega

theorem markedBase?_of_mark {mark : Char} (h : (Lexeme.markedDigit? mark).isSome = true) (ds : List Char) :
    mark ≠ '_' ∧ markedBase? ('0' :: mark.toLower :: ds) = some (Lexeme.markedRadix mark, ds) := by
  unfold Lexeme.markedDigit? at h
  split at h
  all_goals first | exact ⟨by decide, rfl⟩ | cases h

theorem map_toLower_of_digits {ds : List Char} (h : ∀ d ∈ ds, d.isDigit = true) : ds.map Char.toLower = ds := by
  refine (List.map_congr_left fun c hc => ?_).trans (List.map_id _)
  exact Lexeme.of_ascii (p := fun d => d.isDigit = true → Char.toLower d = d) (by decide)
    (Lexeme.lt_of_isDigit (h c hc)) (h c hc)

/-- Without underscores and in lower case, an integer literal is read in its base. -/
theorem plainNumber?_written (h : Written cs) : plainNumber? ((cs.filter (· ≠ '_')).map Char.toLower) =
    if radix cs = 10 ∧ (Lexeme.digits cs).head? = some '0' ∧ (Lexeme.digits cs).any (· ≠ '0') = true then none
    else (Decimal.integer? (radix cs) ((Lexeme.digits cs).map Char.toLower)).bind integerValue? := by
  cases h with
  | @marked mark ds hmark _ =>
    obtain ⟨p, hp⟩ := Option.isSome_iff_exists.mp hmark
    have hradix : radix ('0' :: mark :: ds) ≠ 10 := (Lexeme.markedRadix_of_markedDigit hp).1
    have hdigits : Lexeme.digits ('0' :: mark :: ds) = ds.filter (· ≠ '_') := by
      rw [Lexeme.digits, if_neg hradix]
      rfl
    obtain ⟨hscore, hbase⟩ := markedBase?_of_mark hmark ((ds.filter (· ≠ '_')).map Char.toLower)
    have hclean : (('0' :: mark :: ds).filter (· ≠ '_')).map Char.toLower =
        '0' :: mark.toLower :: (ds.filter (· ≠ '_')).map Char.toLower := by
      simp [hscore]
    have hdecimal : ¬ (radix ('0' :: mark :: ds) = 10 ∧ (Lexeme.digits ('0' :: mark :: ds)).head? = some '0' ∧
        (Lexeme.digits ('0' :: mark :: ds)).any (· ≠ '0') = true) := fun hand => hradix hand.1
    rw [hclean, plainNumber?, hbase, if_neg hdecimal, hdigits]
    rfl
  | @decimal c ds hradix _ hds =>
    have hdigits : Lexeme.digits (c :: ds) = (c :: ds).filter (· ≠ '_') := by rw [Lexeme.digits, if_pos hradix]
    have hall : ∀ d ∈ (c :: ds).filter (· ≠ '_'), d.isDigit = true := by
      intro d hd
      obtain ⟨hmem, hscore⟩ := List.mem_filter.mp hd
      exact (hds d hmem).resolve_left (of_decide_eq_true hscore)
    rw [hdigits, hradix, map_toLower_of_digits hall, plainNumber?_of_digits hall, decimalInteger?]
    simp only [true_and]

theorem plainNumber?_of_denotes (h : IsInteger cs) (hdenotes : Lexeme.Denotes cs) :
    plainNumber? ((cs.filter (· ≠ '_')).map Char.toLower) = integerValue? (magnitude cs) := by
  have hleading : ¬ (radix cs = 10 ∧ (Lexeme.digits cs).head? = some '0' ∧
      (Lexeme.digits cs).any (· ≠ '0') = true) := by
    rintro ⟨hradix, hhead, hany⟩
    obtain ⟨d, hd, hne⟩ := List.any_eq_true.mp hany
    exact of_decide_eq_true hne (hdenotes.leading hradix hhead d hd)
  rw [plainNumber?_written h.written, if_neg hleading, Lexeme.integer?_toLower h.written.digits,
    if_neg hdenotes.digits]
  rfl

theorem plainNumber?_of_not_denotes (h : IsInteger cs) (hnot : ¬ Lexeme.Denotes cs) :
    plainNumber? ((cs.filter (· ≠ '_')).map Char.toLower) = none := by
  rw [plainNumber?_written h.written]
  split
  · rfl
  · rename_i hleading
    rw [Lexeme.integer?_toLower h.written.digits]
    by_cases hdigits : Lexeme.digits cs = []
    · rw [if_pos hdigits]
      rfl
    · refine absurd ⟨hdigits, fun hradix hhead d hd => ?_⟩ hnot
      by_contra hne
      exact hleading ⟨hradix, hhead, List.any_eq_true.mpr ⟨d, hd, decide_eq_true hne⟩⟩

theorem number_of_denotes {text : String} (h : IsInteger text.toList) (hdenotes : Lexeme.Denotes text.toList)
    (hlt : magnitude text.toList < 2 ^ 63) :
    ∃ k : Int64, k.toInt = magnitude text.toList ∧ number text = .ok (.int k) := by
  obtain ⟨k, hk, hvalue⟩ := integerValue?_of_lt hlt
  exact ⟨k, hk, by rw [number, plainNumber?_of_denotes h hdenotes, hvalue]⟩

theorem number_of_not_denotes {text : String} (h : IsInteger text.toList)
    (hnot : ¬ (Lexeme.Denotes text.toList ∧ magnitude text.toList < 2 ^ 63)) :
    number text = .error (.invalidNumber text) := by
  by_cases hdenotes : Lexeme.Denotes text.toList
  · have hle : 2 ^ 63 ≤ magnitude text.toList := Nat.not_lt.mp fun hlt => hnot ⟨hdenotes, hlt⟩
    rw [number, plainNumber?_of_denotes h hdenotes, integerValue?_of_le hle]
  · rw [number, plainNumber?_of_not_denotes h hdenotes]

end Literal

/-! ## Texts -/

section Texts

variable {text : String}

theorem Lexeme.IsInteger.isNumber {cs : List Char} (h : IsInteger cs) : IsNumber cs :=
  ⟨[], by rw [List.append_nil]; exact h.whole⟩

/-- An integer literal begins with a digit. -/
theorem first_of_isInteger {cs : List Char} (h : IsInteger cs) :
    ∃ c ds, cs = c :: ds ∧ c.isDigit = true ∧ opensWritten c = true := by
  obtain ⟨c, ds, hcs, hc⟩ := h.written.first
  exact ⟨c, ds, hcs, hc, by simp [opensWritten, hc]⟩

theorem quiet_nil : Lexeme.Quiet [] := by
  rintro d ⟨⟩

/-- An integer literal is read as a number as it is written. -/
theorem ofText_integer (h : IsInteger text.toList) :
    ∃ e, Expr.ofText text = .ok e ∧ e.bare = .constant default (.number text) := by
  obtain ⟨c, cs, htext, -, hopen⟩ := first_of_isInteger h
  have hcuts := cuts_number h.isNumber quiet_nil
  rw [htext] at hcuts
  exact Expr.ofText_of_stands htext (startsToken_of_opensWritten hopen) (isBlank_of_opensWritten hopen)
    (Value.closes_number h.isNumber) hcuts
    (Reading.stands_of_phrase (Reading.phrase_of_isTight (.constant default (.number text)) rfl))

theorem ofText_negated (h : IsInteger text.toList) :
    ∃ e, Expr.ofText ("-" ++ text) = .ok e ∧
      e.bare = .unary default .negate (.constant default (.number text)) := by
  obtain ⟨c, cs, htext, hc, hopen⟩ := first_of_isInteger h
  have hnumber := cuts_number h.isNumber quiet_nil
  rw [htext] at hnumber
  have hminus : Cuts ['-'] [opWord .minus] (c :: cs ++ []) := by
    refine cuts_before (o := .minus) (by rintro ⟨⟩) hopen ?_ _
    rintro (rfl | rfl) <;> decide
  have hchars : ("-" ++ text).toList = '-' :: c :: cs := by
    rw [String.toList_append, htext]
    rfl
  exact Expr.ofText_of_stands hchars (by decide) (by decide) ((Value.closes_number h.isNumber).append "-")
    (hminus.append hnumber) (Reading.stands_of_phrase
      (Reading.phrase_of_isTight (.unary default .negate (.constant default (.number text))) rfl))

theorem value_integer (h : IsInteger text.toList) : Value.ofText text = Literal.number text := by
  obtain ⟨e, he, hbare⟩ := ofText_integer h
  rw [Value.ofText_eq_value he, ← Literal.value_bare, hbare]
  rfl

theorem value_negated (h : IsInteger text.toList) {v : Value} (hv : Literal.number text = .ok v) :
    ∃ e, Value.ofText ("-" ++ text) = Literal.signed e .negate v := by
  obtain ⟨e, he, hbare⟩ := ofText_negated h
  refine ⟨.unary default .negate (.constant default (.number text)), ?_⟩
  rw [Value.ofText_eq_value he, ← Literal.value_bare, hbare, Literal.value, Literal.value, Literal.constant, hv]
  rfl

theorem value_negated_error (h : IsInteger text.toList) {err : LiteralError} (hv : Literal.number text = .error err) :
    Value.ofText ("-" ++ text) = .error err := by
  obtain ⟨e, he, hbare⟩ := ofText_negated h
  rw [Value.ofText_eq_value he, ← Literal.value_bare, hbare, Literal.value, Literal.value, Literal.constant, hv]
  rfl

/-- An integer literal that makes a number of 63 bits stands for it, and with a sign before it for its opposite. -/
theorem value_of_denotes (h : IsInteger text.toList) (hdenotes : Lexeme.Denotes text.toList)
    (hlt : magnitude text.toList < 2 ^ 63) :
    ∃ k : Int64, (k.toInt = magnitude text.toList ∧ Value.ofText text = .ok (.int k)) ∧
      (-k).toInt = -magnitude text.toList ∧ Value.ofText ("-" ++ text) = .ok (.int (-k)) := by
  obtain ⟨k, hk, hnumber⟩ := Literal.number_of_denotes h hdenotes hlt
  have hne : k ≠ Int64.minValue := by
    rintro rfl
    rw [Int64.toInt_minValue] at hk
    omega
  refine ⟨k, ⟨hk, (value_integer h).trans hnumber⟩, by rw [toInt_neg_of_ne hne, hk], ?_⟩
  obtain ⟨e, he⟩ := value_negated h hnumber
  rw [he, Literal.signed, if_neg hne]

theorem error_of_not_denotes (h : IsInteger text.toList)
    (hnot : ¬ (Lexeme.Denotes text.toList ∧ magnitude text.toList < 2 ^ 63)) :
    Value.ofText text = .error (.invalidNumber text) ∧ Value.ofText ("-" ++ text) = .error (.invalidNumber text) := by
  have hnumber := Literal.number_of_not_denotes h hnot
  exact ⟨(value_integer h).trans hnumber, value_negated_error h hnumber⟩

/-- Digits alone are an integer literal. -/
theorem isInteger_toString {n : Int} (h : 0 ≤ n) : IsInteger (toString n).toList := by
  have hdigits : ∀ c ∈ (toString n).toList, c.isDigit = true := by
    rw [toList_toString h]
    exact isDigit_of_mem_toDigits
  have hnumber : Lexeme.IsNumber (toString n).toList := by
    rw [toList_toString h]
    exact isNumber_toDigits n.toNat
  have hwhole := hnumber.length_append quiet_nil
  rw [List.append_nil] at hwhole
  refine ⟨hwhole, fun _ c hc hmem => ?_⟩
  have hnone : ['.', 'e', 'E', 'j', 'J'].all (fun c => !c.isDigit) = true := by decide
  have hdigit := List.all_eq_true.mp hnone c hc
  rw [hdigits c hmem] at hdigit
  cases hdigit

/-- Every integer but the least is written as an integer literal, with a sign if it is below zero. -/
theorem exists_integerLiteral {k : Int64} (hk : k ≠ Int64.minValue) : ∃ text : String, IsInteger text.toList ∧
    (Value.ofText text = .ok (.int k) ∨ Value.ofText ("-" ++ text) = .ok (.int k)) := by
  by_cases hpos : 0 ≤ k.toInt
  · have hinteger := isInteger_toString hpos
    exact ⟨toString k.toInt, hinteger, Or.inl ((value_integer hinteger).trans (Literal.number_toString hpos))⟩
  · have hneg := toInt_neg_nonneg hk hpos
    have hinteger := isInteger_toString hneg
    obtain ⟨e, he⟩ := value_negated hinteger (Literal.number_toString hneg)
    refine ⟨toString (-k).toInt, hinteger, Or.inr ?_⟩
    rw [he, Literal.signed, if_neg (neg_ne_minValue hk), Int64.neg_neg]

/-- What an integer literal stands for is not the least integer. -/
theorem ne_minValue_of_integerLiteral {k : Int64} (h : IsInteger text.toList)
    (hk : Value.ofText text = .ok (.int k) ∨ Value.ofText ("-" ++ text) = .ok (.int k)) : k ≠ Int64.minValue := by
  by_cases hdenotes : Lexeme.Denotes text.toList ∧ magnitude text.toList < 2 ^ 63
  · obtain ⟨n, ⟨hn, hvalue⟩, hneg, hnegated⟩ := value_of_denotes h hdenotes.1 hdenotes.2
    rintro rfl
    rcases hk with hk | hk
    · obtain rfl : n = Int64.minValue := by simpa using hvalue.symm.trans hk
      rw [Int64.toInt_minValue] at hn
      omega
    · have heq : -n = Int64.minValue := by simpa using hnegated.symm.trans hk
      rw [heq, Int64.toInt_minValue] at hneg
      omega
  · obtain ⟨herror, hnegated⟩ := error_of_not_denotes h hdenotes
    rcases hk with hk | hk
    · cases herror.symm.trans hk
    · cases hnegated.symm.trans hk

end Texts

/-- An integer literal stands for the number that its digits make, and with a sign before it for the opposite, if that
number has 63 bits. Otherwise neither is a literal. Every integer is written in this way but the least one. -/
theorem Value.ofText_integerLiteral (text : String) (k : Int64) :
    (IsInteger text.toList →
      (Lexeme.Denotes text.toList ∧ magnitude text.toList < 2 ^ 63 →
        ∃ n : Int64, (n.toInt = magnitude text.toList ∧ Value.ofText text = .ok (.int n)) ∧
          (-n).toInt = -magnitude text.toList ∧ Value.ofText ("-" ++ text) = .ok (.int (-n))) ∧
      (¬ (Lexeme.Denotes text.toList ∧ magnitude text.toList < 2 ^ 63) →
        (∃ err, Value.ofText text = .error err) ∧ ∃ err, Value.ofText ("-" ++ text) = .error err)) ∧
    (k ≠ Int64.minValue ↔ ∃ literal : String, IsInteger literal.toList ∧
      (Value.ofText literal = .ok (.int k) ∨ Value.ofText ("-" ++ literal) = .ok (.int k))) := by
  refine ⟨fun h => ⟨fun hdenotes => value_of_denotes h hdenotes.1 hdenotes.2, fun hnot => ?_⟩, exists_integerLiteral, ?_⟩
  · obtain ⟨herror, hnegated⟩ := error_of_not_denotes h hnot
    exact ⟨⟨_, herror⟩, ⟨_, hnegated⟩⟩
  · rintro ⟨literal, h, hk⟩
    exact ne_minValue_of_integerLiteral h hk

/-- The greatest integer in base sixteen, and a number with a zero before it. -/
theorem Value.ofText_greatestLiteral :
    (IsInteger "0X7FFF_ffff_FFFF_ffff".toList ∧ ∃ k : Int64, (k.toInt = 9223372036854775807 ∧
      Value.ofText "0X7FFF_ffff_FFFF_ffff" = .ok (.int k)) ∧ (-k).toInt = -9223372036854775807 ∧
        Value.ofText "-0X7FFF_ffff_FFFF_ffff" = .ok (.int (-k))) ∧
    IsInteger "0_1".toList ∧ ∃ err, Value.ofText "0_1" = .error err := by
  have hgreatest : IsInteger "0X7FFF_ffff_FFFF_ffff".toList := by decide +kernel
  have hdenotes : Lexeme.Denotes "0X7FFF_ffff_FFFF_ffff".toList := ⟨by decide +kernel, by decide +kernel⟩
  have hmagnitude : magnitude "0X7FFF_ffff_FFFF_ffff".toList = 9223372036854775807 := by decide +kernel
  have hzero : IsInteger "0_1".toList := by decide +kernel
  have hnot : ¬ Lexeme.Denotes "0_1".toList := by
    rintro ⟨-, hleading⟩
    exact absurd (hleading (by decide +kernel) (by decide +kernel) '1' (by decide +kernel)) (by decide)
  have hliterals := fun text => (Value.ofText_integerLiteral text 0).1
  refine ⟨⟨hgreatest, ?_⟩, hzero, ?_⟩
  · have hvalue := (hliterals _ hgreatest).1 ⟨hdenotes, by rw [hmagnitude]; decide⟩
    rwa [hmagnitude] at hvalue
  · exact ((hliterals _ hzero).2 fun hand => hnot hand.1).1

/-- The digits of the least integer make a number of 64 bits, and so it has no literal. -/
theorem Value.least_not_literal :
    IsInteger "9223372036854775808".toList ∧ Lexeme.Denotes "9223372036854775808".toList ∧
      -(magnitude "9223372036854775808".toList : Int) = Int64.minValue.toInt ∧
      ∃ err, Value.ofText "-9223372036854775808" = .error err := by
  have hinteger : IsInteger "9223372036854775808".toList := by decide +kernel
  have hmagnitude : magnitude "9223372036854775808".toList = 9223372036854775808 := by decide +kernel
  refine ⟨hinteger, ⟨by decide +kernel, by decide +kernel⟩, by rw [hmagnitude]; rfl, ?_⟩
  refine ⟨_, (error_of_not_denotes hinteger fun hand => ?_).2⟩
  rw [hmagnitude] at hand
  exact absurd hand.2 (by decide)

end TypeWatch
