import TypeWatch.Proofs.Lexeme.Numeral
import TypeWatch.Value.Literal

/-! # Integers

The decimal digits of an integer are a number literal (`isNumber_toDigits`), and the literal stands for the
integer if it has a place in 64 bits (`number_toString`). -/
namespace TypeWatch
set_option autoImplicit false

/-! ## Digits -/

section Digits

variable {cs : List Char}

/-- Among digits there is no other character. -/
theorem not_mem_of_digits (h : ∀ c ∈ cs, c.isDigit = true) {d : Char} (hd : d.isDigit = false) : d ∉ cs :=
  fun hmem => absurd (hd.symm.trans (h d hmem)) (by rintro ⟨⟩)

theorem isDigit_of_mem_toDigits {n : Nat} : ∀ c ∈ Nat.toDigits 10 n, c.isDigit = true :=
  fun _ => Nat.isDigit_of_mem_toDigits (by decide) (by decide)

/-- Only zero is written with a zero before all other digits. -/
theorem eq_zero_of_head? (n : Nat) (h : (Nat.toDigits 10 n).head? = some '0') : n = 0 := by
  induction n using Nat.strong_induction_on with
  | _ n ih =>
    by_cases hn : n < 10
    · rw [Nat.toDigits_of_lt_base hn] at h
      have hall : ∀ m < 10, Nat.digitChar m = '0' → m = 0 := by decide
      exact hall n hn (Option.some.inj h)
    · obtain ⟨d, ds, hds⟩ := List.exists_cons_of_ne_nil (Nat.toDigits_ne_nil (n := n / 10) (b := 10))
      rw [Nat.toDigits_of_base_le (by decide) (Nat.not_lt.mp hn), hds] at h
      have hzero : n / 10 = 0 := ih (n / 10) (by omega) (by rw [hds]; exact h)
      omega

/-- No digit marks a base. -/
theorem Lexeme.markedDigit?_of_isDigit {c : Char} (hc : c.isDigit = true) : markedDigit? c = none := by
  refine Option.isNone_iff_eq_none.mp ?_
  exact of_ascii (p := fun d => d.isDigit = true → (markedDigit? d).isNone = true) (by decide) (lt_of_isDigit hc) hc

/-- Digits are cut from a text as a number. -/
theorem Lexeme.isNumber_of_digits (hne : cs ≠ []) (h : ∀ c ∈ cs, c.isDigit = true) : IsNumber cs := by
  obtain ⟨c, ds, rfl⟩ := List.exists_cons_of_ne_nil hne
  have hc := h c List.mem_cons_self
  have hds : ∀ d ∈ ds, d.isDigit = true := fun d hd => h d (List.mem_cons_of_mem c hd)
  have hmarked : markedLength? (c :: ds) = none := by
    unfold markedLength?
    split
    · rename_i mark more heq
      have hmark : mark.isDigit = true := hds mark (by rw [(List.cons.inj heq).2]; exact List.mem_cons_self)
      rw [markedDigit?_of_isDigit hmark]
    · rfl
  have hrun : runLength isDigitOrUnderscore (ds ++ []) = ds.length :=
    runLength_append (fun d hd => by simp [isDigitOrUnderscore, hds d hd]) nofun
  rw [List.append_nil] at hrun
  have hmantissa : mantissaLength? (c :: ds) = some (1 + ds.length) := by
    rw [mantissaLength?]
    · simp only [if_pos hc, hrun, List.drop_length]
    · rintro _ _ rfl
      exact absurd hc (by decide)
  refine ⟨[], ?_⟩
  rw [List.append_nil, numberLength?, hmarked, hmantissa]
  simp [exponentLength, imaginaryLength, Nat.add_comm]

theorem isNumber_toDigits (n : Nat) : Lexeme.IsNumber (Nat.toDigits 10 n) :=
  Lexeme.isNumber_of_digits Nat.toDigits_ne_nil isDigit_of_mem_toDigits

/-- An integer that is not below zero is written without a sign. -/
theorem toList_toString {n : Int} (h : 0 ≤ n) : (toString n).toList = Nat.toDigits 10 n.toNat := by
  obtain ⟨m, rfl⟩ := Int.eq_ofNat_of_zero_le h
  exact Nat.toList_repr

end Digits

/-! ## Values of digits -/

namespace Decimal

theorem digitsValue?_eq {cs : List Char} (h : ∀ c ∈ cs, c.isDigit = true) (acc : Nat) :
    digitsValue? 10 acc cs = some (Nat.ofDigitChars 10 cs acc) := by
  induction cs generalizing acc with
  | nil => simp [digitsValue?]
  | cons c cs ih =>
    have hc := h c List.mem_cons_self
    have hvalue : digitValue c = c.toNat - '0'.toNat := by rw [digitValue, if_pos hc]
    have hlt : digitValue c < 10 := by
      have hall : ∀ n < 128, (Char.ofNat n).isDigit = true → digitValue (Char.ofNat n) < 10 := by decide
      exact Lexeme.of_ascii (p := fun d => d.isDigit = true → digitValue d < 10) hall (Lexeme.lt_of_isDigit hc) hc
    rw [digitsValue?, if_pos hlt, ih fun d hd => h d (List.mem_cons_of_mem c hd), Nat.ofDigitChars_cons, hvalue,
      Nat.mul_comm]

theorem integer?_toDigits (n : Nat) : integer? 10 (Nat.toDigits 10 n) = some (n : Int) := by
  have hdigits := isDigit_of_mem_toDigits (n := n)
  have hnatural : natural? 10 (Nat.toDigits 10 n) = some n := by
    rw [natural?, if_neg (by simp), digitsValue?_eq hdigits, Nat.ofDigitChars_ten_toDigits]
  unfold integer?
  split
  · rename_i heq
    rw [heq] at hdigits
    exact absurd (hdigits '-' List.mem_cons_self) (by decide)
  · rename_i heq
    rw [heq] at hdigits
    exact absurd (hdigits '+' List.mem_cons_self) (by decide)
  · rw [hnatural]
    rfl

end Decimal

namespace Literal

theorem decimalInteger?_toDigits (n : Nat) : decimalInteger? (Nat.toDigits 10 n) = integerValue? n := by
  have hleading : ¬((Nat.toDigits 10 n).head? = some '0' ∧ (Nat.toDigits 10 n).any (· ≠ '0') = true) := by
    rintro ⟨hhead, hany⟩
    rw [eq_zero_of_head? n hhead] at hany
    exact absurd hany (by decide)
  rw [decimalInteger?, if_neg hleading, Decimal.integer?_toDigits]
  rfl

theorem markedBase?_eq_none {cs : List Char} (h : ∀ c ∈ cs, c.isDigit = true) : markedBase? cs = none := by
  unfold markedBase?
  split
  · exact absurd (h 'x' (by simp)) (by decide)
  · exact absurd (h 'o' (by simp)) (by decide)
  · exact absurd (h 'b' (by simp)) (by decide)
  · rfl

/-- Digits make an integer, and none that is imaginary or has a point or an exponent. -/
theorem plainNumber?_of_digits {cs : List Char} (h : ∀ c ∈ cs, c.isDigit = true) :
    plainNumber? cs = decimalInteger? cs := by
  have hlast : ¬cs.getLast? = some 'j' := fun hlast =>
    not_mem_of_digits h (by decide) (List.mem_of_getLast? hlast)
  have hpoint : '.' ∉ cs := not_mem_of_digits h (by decide)
  have hexponent : 'e' ∉ cs := not_mem_of_digits h (by decide)
  simp [plainNumber?, markedBase?_eq_none h, hlast, hpoint, hexponent]

theorem number_of_digits {literal : String} (h : ∀ c ∈ literal.toList, c.isDigit = true) {v : Value}
    (hv : decimalInteger? literal.toList = some v) : number literal = .ok v := by
  have hfilter : literal.toList.filter (· ≠ '_') = literal.toList := by
    refine List.filter_eq_self.mpr fun c hc => decide_eq_true ?_
    rintro rfl
    exact absurd (h '_' hc) (by decide)
  have hlower : literal.toList.map Char.toLower = literal.toList := by
    refine (List.map_congr_left fun c hc => ?_).trans (List.map_id _)
    exact Lexeme.of_ascii (p := fun d => d.isDigit = true → Char.toLower d = d) (by decide)
      (Lexeme.lt_of_isDigit (h c hc)) (h c hc)
  rw [number, hfilter, hlower, plainNumber?_of_digits h, hv]

theorem integerValue?_toInt (n : Int64) : integerValue? n.toInt = some (.int n) := by
  rw [integerValue?, Int64.ofInt_toInt, if_pos rfl]

/-- The literal of an integer without a sign stands for it. -/
theorem number_toString {n : Int64} (h : 0 ≤ n.toInt) : number (toString n.toInt) = .ok (.int n) := by
  have hdigits := toList_toString h
  refine number_of_digits ?_ ?_
  · rw [hdigits]
    exact isDigit_of_mem_toDigits
  · rw [hdigits, decimalInteger?_toDigits, Int.toNat_of_nonneg h, integerValue?_toInt]

end Literal

/-! ## Signs -/

/-- The least integer is the only one that has no opposite. -/
theorem toInt_neg_of_ne {n : Int64} (h : n ≠ Int64.minValue) : (-n).toInt = -n.toInt := by
  have hle := Int64.minValue_le_toInt n
  have hlt := Int64.toInt_lt n
  have hne : n.toInt ≠ Int64.minValue.toInt := fun heq => h (Int64.toInt_inj.mp heq)
  rw [Int64.toInt_minValue] at hle hne
  rw [Int64.toInt_neg, Int.bmod_def]
  omega

theorem toInt_neg_nonneg {n : Int64} (h : n ≠ Int64.minValue) (hneg : ¬0 ≤ n.toInt) : 0 ≤ (-n).toInt := by
  rw [toInt_neg_of_ne h]
  omega

theorem neg_ne_minValue {n : Int64} (h : n ≠ Int64.minValue) : -n ≠ Int64.minValue := by
  intro heq
  have hneg : n = -Int64.minValue := by rw [← heq, Int64.neg_neg]
  exact h (hneg.trans (by decide))

/-- An integer below zero is written as a sign and its opposite. -/
theorem toString_of_neg {n : Int64} (h : n ≠ Int64.minValue) (hneg : n.toInt < 0) :
    toString n.toInt = "-" ++ toString (-n).toInt := by
  obtain ⟨m, hm⟩ := Int.eq_negSucc_of_lt_zero hneg
  have hpos : (-n).toInt = ((m + 1 : Nat) : Int) := by
    rw [toInt_neg_of_ne h, hm]
    rfl
  rw [hpos, hm]
  rfl

end TypeWatch
