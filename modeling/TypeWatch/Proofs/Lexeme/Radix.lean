import Mathlib.Data.Nat.Digits.Defs
import TypeWatch.Decimal.Reading
import TypeWatch.Proofs.Lexeme.Numeral

/-! # Integer literals

A number literal is an integer if it is marked with a base, or if it has no point, no exponent and no mark of an
imaginary number (`IsInteger`). It is written with underscores and with digits of its base (`IsInteger.written`), and
it amounts to what its digits are worth by their places (`magnitude`). -/
namespace TypeWatch.Lexeme
set_option autoImplicit false

/-! ## Digits -/

/-- The base that a letter after a zero marks. -/
def markedRadix : Char → Nat
  | 'x' | 'X' => 16
  | 'o' | 'O' => 8
  | 'b' | 'B' => 2
  | _ => 10

def radix : List Char → Nat
  | '0' :: mark :: _ => markedRadix mark
  | _ => 10

/-- The digits of an integer literal, without its mark and underscores. -/
def digits (cs : List Char) : List Char := (if radix cs = 10 then cs else cs.drop 2).filter (· ≠ '_')

/-- What a digit is worth. Letters count in either case. -/
def digitWorth (c : Char) : Nat := "0123456789abcdef".toList.idxOf c.toLower

/-- The number that the digits of an integer literal make. -/
def magnitude (cs : List Char) : Nat := Nat.ofDigits (radix cs) ((digits cs).reverse.map digitWorth)

/-- Number literals without a point, an exponent or the mark of an imaginary number, which may be digits of base
sixteen. -/
structure IsInteger (cs : List Char) : Prop where
  whole : numberLength? cs = some cs.length
  integral : radix cs = 10 → ∀ c ∈ ['.', 'e', 'E', 'j', 'J'], c ∉ cs

instance (cs : List Char) : Decidable (IsInteger cs) :=
  decidable_of_iff (numberLength? cs = some cs.length ∧
      (radix cs = 10 → ['.', 'e', 'E', 'j', 'J'].all (fun c => !cs.contains c) = true))
    ⟨fun h => ⟨h.1, fun hradix => by simpa using h.2 hradix⟩,
      fun h => ⟨h.whole, fun hradix => by simpa using h.integral hradix⟩⟩

/-- Digits of a base. -/
def IsDigit (base : Nat) (c : Char) : Prop := isHexDigit c = true ∧ digitWorth c < base

theorem isDigit_of_isDigit {c : Char} (hc : c.isDigit = true) : IsDigit 10 c := by
  have hall : ∀ n < 128, (Char.ofNat n).isDigit = true →
      isHexDigit (Char.ofNat n) = true ∧ digitWorth (Char.ofNat n) < 10 := by decide +kernel
  exact of_ascii (p := fun c => c.isDigit = true → isHexDigit c = true ∧ digitWorth c < 10) hall (lt_of_isDigit hc) hc

/-- A mark names its base, and the digits after it are digits of the base. -/
theorem markedRadix_of_markedDigit {mark : Char} {p : Char → Bool} (hp : markedDigit? mark = some p) :
    markedRadix mark ≠ 10 ∧ ∀ c, p c = true → IsDigit (markedRadix mark) c := by
  have hhex : ∀ n < 128, isHexDigit (Char.ofNat n) = true → digitWorth (Char.ofNat n) < 16 := by decide +kernel
  have hoctal : ∀ n < 128, ('0' ≤ Char.ofNat n && Char.ofNat n ≤ '7') = true → digitWorth (Char.ofNat n) < 8 := by
    decide +kernel
  have hbinary : ∀ n < 128, (Char.ofNat n == '0' || Char.ofNat n == '1') = true → digitWorth (Char.ofNat n) < 2 := by
    decide +kernel
  have hchars : ∀ c, p c = true → isHexDigit c = true := fun c hc => isHexDigit_of_markedDigit hp hc
  have hof {b : Nat} (hall : ∀ n < 128, p (Char.ofNat n) = true → digitWorth (Char.ofNat n) < b) :
      ∀ c, p c = true → IsDigit b c := fun c hc =>
    ⟨hchars c hc, of_ascii (p := fun c => p c = true → digitWorth c < b) hall (lt_of_isHexDigit (hchars c hc)) hc⟩
  unfold markedDigit? at hp
  split at hp
  · cases hp; exact ⟨by decide, hof hhex⟩
  · cases hp; exact ⟨by decide, hof hhex⟩
  · cases hp; exact ⟨by decide, hof hoctal⟩
  · cases hp; exact ⟨by decide, hof hoctal⟩
  · cases hp; exact ⟨by decide, hof hbinary⟩
  · cases hp; exact ⟨by decide, hof hbinary⟩
  · cases hp

theorem markedRadix_eq_ten {mark : Char} (h : markedDigit? mark = none) : markedRadix mark = 10 := by
  unfold markedDigit? at h
  split at h
  case h_7 => simp [markedRadix]
  all_goals cases h

/-! ## Characters of integer literals -/

theorem forall_of_runLength {p : Char → Bool} {cs : List Char} (h : runLength p cs = cs.length) :
    ∀ c ∈ cs, p c = true := by
  have hself : cs.takeWhile p = cs := (List.takeWhile_prefix p).eq_of_length h
  intro c hc
  rw [← hself] at hc
  exact List.all_eq_true.mp List.all_takeWhile c hc

theorem exponentLength_eq_zero {cs : List Char} (he : 'e' ∉ cs) (hE : 'E' ∉ cs) : exponentLength cs = 0 := by
  cases cs with
  | nil => rfl
  | cons c cs =>
    have hc : (c == 'e' || c == 'E') = false := by
      rw [Bool.or_eq_false_iff, beq_eq_false_iff_ne, beq_eq_false_iff_ne]
      refine ⟨?_, ?_⟩
      · rintro rfl
        exact he List.mem_cons_self
      · rintro rfl
        exact hE List.mem_cons_self
    simp [exponentLength.eq_def, hc]

theorem imaginaryLength_eq_zero {cs : List Char} (hj : 'j' ∉ cs) (hJ : 'J' ∉ cs) : imaginaryLength cs = 0 := by
  unfold imaginaryLength
  split
  · exact absurd List.mem_cons_self hj
  · exact absurd List.mem_cons_self hJ
  · rfl

/-- A letter that marks no base and no part of a number ends the number. -/
theorem markedLength?_eq {mark : Char} {ds : List Char} {p : Char → Bool} (hp : markedDigit? mark = some p) :
    markedLength? ('0' :: mark :: ds) =
      if runLength (fun c => p c || c == '_') ds = 0 then none
      else some (runLength (fun c => p c || c == '_') ds + 2) := by
  rw [markedLength?, hp]
  dsimp only
  split
  · rename_i hzero
    rw [if_pos hzero]
  · rename_i n hrun
    rw [if_neg (by omega), hrun]

theorem numberLength?_of_mark {mark : Char} {ds : List Char} {p : Char → Bool} (hp : markedDigit? mark = some p)
    (hnone : markedLength? ('0' :: mark :: ds) = none) : numberLength? ('0' :: mark :: ds) = some 1 := by
  have hmark : isDigitOrUnderscore mark = false ∧ mark ≠ '.' ∧ mark ≠ 'e' ∧ mark ≠ 'E' ∧ mark ≠ 'j' ∧ mark ≠ 'J' := by
    unfold markedDigit? at hp
    split at hp
    all_goals first | decide | cases hp
  obtain ⟨hdigit, hpoint, he, hE, hj, hJ⟩ := hmark
  have hmantissa : mantissaLength? ('0' :: mark :: ds) = some 1 := by
    have hzero := runLength_cons_of_neg hdigit ds
    rw [mantissaLength?.eq_def]
    simp [hzero, hpoint]
  have hexponent : exponentLength (mark :: ds) = 0 := by
    simp [exponentLength, he, hE]
  have himaginary : imaginaryLength (mark :: ds) = 0 := by
    simp [imaginaryLength, hj, hJ]
  rw [numberLength?, hnone, hmantissa]
  simp [hexponent, himaginary]

/-- How an integer literal is written. -/
inductive Written : List Char → Prop
  | marked {mark : Char} {ds : List Char} (hmark : (markedDigit? mark).isSome = true)
    (h : ∀ c ∈ ds, c = '_' ∨ IsDigit (markedRadix mark) c) : Written ('0' :: mark :: ds)
  | decimal {c : Char} {cs : List Char} (hradix : radix (c :: cs) = 10) (hc : c.isDigit = true)
    (h : ∀ d ∈ c :: cs, d = '_' ∨ d.isDigit = true) : Written (c :: cs)

theorem written_of_marked {mark : Char} {ds : List Char} {p : Char → Bool} (hp : markedDigit? mark = some p)
    (h : numberLength? ('0' :: mark :: ds) = some (ds.length + 2)) : Written ('0' :: mark :: ds) := by
  refine .marked (by rw [hp]; rfl) fun c hc => ?_
  have hlength : markedLength? ('0' :: mark :: ds) = _ := markedLength?_eq hp
  split at hlength
  · have hone := numberLength?_of_mark hp hlength
    rw [h] at hone
    cases hone
  · rw [numberLength?, hlength] at h
    have hrun : runLength (fun c => p c || c == '_') ds = ds.length := Nat.add_right_cancel (Option.some.inj h)
    rcases Bool.or_eq_true_iff.mp (forall_of_runLength hrun c hc) with hdigit | hscore
    · exact Or.inr ((markedRadix_of_markedDigit hp).2 c hdigit)
    · exact Or.inl (beq_iff_eq.mp hscore)

/-- Digits without a point are followed by nothing that belongs to their mantissa. -/
theorem mantissaLength?_of_not_mem {c : Char} {cs : List Char} (hpoint : '.' ∉ c :: cs) {m : Nat}
    (h : mantissaLength? (c :: cs) = some m) : c.isDigit = true ∧ m = runLength isDigitOrUnderscore cs + 1 := by
  unfold mantissaLength? at h
  split at h
  · rename_i heq
    obtain ⟨rfl, -⟩ := List.cons.inj heq
    exact absurd List.mem_cons_self hpoint
  · rename_i d ds _ heq
    obtain ⟨rfl, rfl⟩ := List.cons.inj heq
    split at h
    · rename_i hc
      dsimp only at h
      split at h
      · rename_i fraction hdrop
        have hmem : '.' ∈ cs := List.mem_of_mem_drop (hdrop ▸ List.mem_cons_self)
        exact absurd (List.mem_cons_of_mem c hmem) hpoint
      · cases h
        exact ⟨hc, Nat.add_comm 1 _⟩
    · cases h
  · rename_i heq
    cases heq

theorem written_of_decimal {c : Char} {cs : List Char} (hradix : radix (c :: cs) = 10)
    (hmarked : markedLength? (c :: cs) = none) (h : numberLength? (c :: cs) = some (cs.length + 1))
    (hchars : ∀ d ∈ ['.', 'e', 'E', 'j', 'J'], d ∉ c :: cs) : Written (c :: cs) := by
  have hnot : ∀ d ∈ ['.', 'e', 'E', 'j', 'J'], ∀ n, d ∉ (c :: cs).drop n :=
    fun d hd n hmem => hchars d hd (List.mem_of_mem_drop hmem)
  have hexponent n : exponentLength ((c :: cs).drop n) = 0 :=
    exponentLength_eq_zero (hnot 'e' (by simp) n) (hnot 'E' (by simp) n)
  have himaginary n : imaginaryLength ((c :: cs).drop n) = 0 :=
    imaginaryLength_eq_zero (hnot 'j' (by simp) n) (hnot 'J' (by simp) n)
  cases hm : mantissaLength? (c :: cs) with
  | none =>
    rw [numberLength?, hmarked, hm] at h
    cases h
  | some m =>
    obtain ⟨hc, rfl⟩ := mantissaLength?_of_not_mem (hchars '.' (by simp)) hm
    rw [numberLength?, hmarked, hm] at h
    simp only [hexponent, himaginary, Nat.add_zero, Option.some.injEq, Nat.add_right_cancel_iff] at h
    refine .decimal hradix hc (List.forall_mem_cons.mpr ⟨Or.inr hc, fun d hd => ?_⟩)
    rcases Bool.or_eq_true_iff.mp (forall_of_runLength h d hd) with hdigit | hscore
    · exact Or.inr hdigit
    · exact Or.inl (beq_iff_eq.mp hscore)

/-- A text begins with a mark, or it is in base ten. -/
theorem marked_or_radix (cs : List Char) :
    (∃ mark ds p, cs = '0' :: mark :: ds ∧ markedDigit? mark = some p) ∨ radix cs = 10 ∧ markedLength? cs = none := by
  unfold radix
  split
  · rename_i mark ds
    cases hp : markedDigit? mark with
    | some p => exact Or.inl ⟨mark, ds, p, rfl, hp⟩
    | none =>
      refine Or.inr ⟨markedRadix_eq_ten hp, ?_⟩
      rw [markedLength?, hp]
  · rename_i hother
    refine Or.inr ⟨rfl, ?_⟩
    unfold markedLength?
    split
    · rename_i mark ds
      exact absurd rfl (hother mark ds)
    · rfl

/-- An integer literal is a mark with underscores and digits of its base after it, or it is underscores after a
decimal digit and among more of them. -/
theorem IsInteger.written {cs : List Char} (h : IsInteger cs) : Written cs := by
  rcases marked_or_radix cs with ⟨mark, ds, p, rfl, hp⟩ | ⟨hradix, hmarked⟩
  · exact written_of_marked hp h.whole
  · cases cs with
    | nil => cases h.whole
    | cons c cs => exact written_of_decimal hradix hmarked h.whole (h.integral hradix)

namespace Written

variable {cs : List Char}

theorem first (h : Written cs) : ∃ c ds, cs = c :: ds ∧ c.isDigit = true := by
  cases h with
  | marked => exact ⟨_, _, rfl, by decide⟩
  | decimal _ hc _ => exact ⟨_, _, rfl, hc⟩

theorem digits (h : Written cs) : ∀ c ∈ digits cs, IsDigit (radix cs) c := by
  intro c hc
  rw [Lexeme.digits, List.mem_filter, decide_eq_true_eq] at hc
  obtain ⟨hmem, hscore⟩ := hc
  cases h with
  | @marked mark ds hmark h =>
    obtain ⟨p, hp⟩ := Option.isSome_iff_exists.mp hmark
    have hradix : radix ('0' :: mark :: ds) ≠ 10 := (markedRadix_of_markedDigit hp).1
    rw [if_neg hradix] at hmem
    exact (h c hmem).resolve_left hscore
  | decimal hradix _ h =>
    rw [if_pos hradix] at hmem
    rw [hradix]
    exact isDigit_of_isDigit ((h c hmem).resolve_left hscore)

end Written

/-! ## The number that digits make -/

theorem toLower_of_isDigit {base : Nat} {c : Char} (hc : IsDigit base c) :
    Decimal.digitValue c.toLower = digitWorth c ∧ c.toLower ≠ '-' ∧ c.toLower ≠ '+' := by
  have hall : ∀ n < 128, isHexDigit (Char.ofNat n) = true →
      Decimal.digitValue (Char.ofNat n).toLower = digitWorth (Char.ofNat n) ∧ (Char.ofNat n).toLower ≠ '-' ∧
        (Char.ofNat n).toLower ≠ '+' := by decide +kernel
  exact of_ascii (p := fun c => isHexDigit c = true →
    Decimal.digitValue c.toLower = digitWorth c ∧ c.toLower ≠ '-' ∧ c.toLower ≠ '+') hall (lt_of_isHexDigit hc.1) hc.1

/-- Digits are read from left to right, what is before them being worth more by their number. -/
theorem digitsValue?_toLower {base : Nat} {ds : List Char} (h : ∀ c ∈ ds, IsDigit base c) (acc : Nat) :
    Decimal.digitsValue? base acc (ds.map Char.toLower) =
      some (Nat.ofDigits base (ds.reverse.map digitWorth) + base ^ ds.length * acc) := by
  induction ds generalizing acc with
  | nil => simp [Decimal.digitsValue?]
  | cons c ds ih =>
    obtain ⟨hc, hds⟩ := List.forall_mem_cons.mp h
    have hvalue := (toLower_of_isDigit hc).1
    rw [List.map_cons, Decimal.digitsValue?, hvalue, if_pos hc.2, ih hds, List.reverse_cons, List.map_append,
      Nat.ofDigits_append, List.map_singleton, Nat.ofDigits_singleton, List.length_map, List.length_reverse,
      List.length_cons, pow_succ]
    congr 1
    ring

theorem integer?_toLower {base : Nat} {ds : List Char} (h : ∀ c ∈ ds, IsDigit base c) :
    Decimal.integer? base (ds.map Char.toLower) =
      if ds = [] then none else some ((Nat.ofDigits base (ds.reverse.map digitWorth) : Nat) : Int) := by
  have hnatural : Decimal.natural? base (ds.map Char.toLower) =
      if ds = [] then none else some (Nat.ofDigits base (ds.reverse.map digitWorth)) := by
    rw [Decimal.natural?, List.isEmpty_map, digitsValue?_toLower h]
    simp
  have hsign {d : Char} {rest : List Char} (heq : ds.map Char.toLower = d :: rest) : d ≠ '-' ∧ d ≠ '+' := by
    obtain ⟨c, cs, rfl, rfl, -⟩ := List.map_eq_cons_iff.mp heq
    exact (toLower_of_isDigit (h c List.mem_cons_self)).2
  unfold Decimal.integer?
  split
  · rename_i heq
    exact absurd rfl (hsign heq).1
  · rename_i heq
    exact absurd rfl (hsign heq).2
  · rw [hnatural]
    split <;> rfl

end TypeWatch.Lexeme
