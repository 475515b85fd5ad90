import TypeWatch.Proofs.Lexeme.Boundary
import TypeWatch.Proofs.Lexeme.Extent
import TypeWatch.Text.Basic

/-! # How far numbers reach

A number takes characters of numbers only, and takes the same ones whatever other character follows
(`Counts`). -/
namespace TypeWatch.Lexeme
set_option autoImplicit false

/-! ## Counting characters -/

/-- The characters that numbers are written with. -/
def isNumberChar (c : Char) : Bool := c.isAlphanum || c == '_' || c == '.' || c == '+' || c == '-'

/-- Whether a text begins with a character with which no number goes on, or is empty. -/
def Quiet (rest : List Char) : Prop := ∀ d ∈ rest.head?, isNumberChar d = false

/-- A count of characters of numbers at the beginning of a text, which does not depend on what follows
them. -/
structure Counts (f : List Char → Nat) : Prop where
  chars (cs : List Char) : ∀ c ∈ cs.take (f cs), isNumberChar c = true
  stable (cs a b : List Char) : f (cs ++ a) ≤ cs.length → Quiet b → f (cs ++ b) = f (cs ++ a)

theorem Quiet.eq_false {rest : List Char} (h : Quiet rest) {p : Char → Bool}
    (hp : ∀ c, p c = true → isNumberChar c = true) : ∀ d ∈ rest.head?, p d = false := by
  intro d hd
  cases hpd : p d with
  | false => rfl
  | true => exact absurd ((h d hd).symm.trans (hp d hpd)) nofun

theorem runLength_cons_of_pos {p : Char → Bool} {c : Char} (hc : p c = true) (cs : List Char) :
    runLength p (c :: cs) = runLength p cs + 1 := by
  simp [runLength, hc]

theorem runLength_cons_of_neg {p : Char → Bool} {c : Char} (hc : p c = false) (cs : List Char) :
    runLength p (c :: cs) = 0 := by
  simp [runLength, hc]

theorem runLength_quiet {p : Char → Bool} (hp : ∀ c, p c = true → isNumberChar c = true) {rest : List Char}
    (h : Quiet rest) : runLength p rest = 0 := by
  cases rest with
  | nil => rfl
  | cons d rest => exact runLength_cons_of_neg (h.eq_false hp d rfl) rest

theorem counts_runLength {p : Char → Bool} (hp : ∀ c, p c = true → isNumberChar c = true) :
    Counts (runLength p) where
  chars cs c hc := by
    rw [take_runLength] at hc
    exact hp c (List.all_eq_true.mp List.all_takeWhile c hc)
  stable cs a b hle hb := by
    induction cs with
    | nil =>
      have hzero : runLength p a = 0 := Nat.le_zero.mp hle
      rw [List.nil_append, List.nil_append, hzero, runLength_quiet hp hb]
    | cons c cs ih =>
      cases hc : p c with
      | false => rw [List.cons_append, List.cons_append, runLength_cons_of_neg hc, runLength_cons_of_neg hc]
      | true =>
        rw [List.cons_append, runLength_cons_of_pos hc] at hle ⊢
        rw [List.cons_append, runLength_cons_of_pos hc, ih (Nat.le_of_succ_le_succ hle)]

/-- One count after another. -/
theorem Counts.andThen {f g : List Char → Nat} (hf : Counts f) (hg : Counts g) :
    Counts fun cs => f cs + g (cs.drop (f cs)) where
  chars cs c hc := by
    rw [List.take_add] at hc
    rcases List.mem_append.mp hc with hc | hc
    · exact hf.chars cs c hc
    · exact hg.chars _ c hc
  stable cs a b hle hb := by
    have hfirst : f (cs ++ a) ≤ cs.length := Nat.le_trans (Nat.le_add_right _ _) hle
    have hsame := hf.stable cs a b hfirst hb
    simp only [hsame, List.drop_append_of_le_length hfirst] at hle ⊢
    rw [hg.stable (cs.drop (f (cs ++ a))) a b ?_ hb]
    rw [List.length_drop]
    omega

/-- One count, or another where the first one is zero. -/
theorem Counts.orElse {f g : List Char → Nat} (hf : Counts f) (hg : Counts g) :
    Counts fun cs => if f cs = 0 then g cs else f cs where
  chars cs c hc := by
    split at hc
    · exact hg.chars cs c hc
    · exact hf.chars cs c hc
  stable cs a b hle hb := by
    have hfirst : f (cs ++ a) ≤ cs.length := by
      split at hle
      · omega
      · exact hle
    simp only [hf.stable cs a b hfirst hb]
    split
    · rename_i hzero
      rw [if_pos hzero] at hle
      exact hg.stable cs a b hle hb
    · rfl

/-- One count after another that is not zero. -/
theorem Counts.seq {f g : List Char → Nat} (hf : Counts f) (hg : Counts g) :
    Counts fun cs => if f cs = 0 then 0 else f cs + g (cs.drop (f cs)) where
  chars cs c hc := by
    split at hc
    · exact absurd hc nofun
    · exact (hf.andThen hg).chars cs c hc
  stable cs a b hle hb := by
    have hfirst : f (cs ++ a) ≤ cs.length := by
      split at hle <;> omega
    have hsame := hf.stable cs a b hfirst hb
    by_cases hzero : f (cs ++ a) = 0
    · simp only [hsame, hzero, if_true]
    · rw [if_neg hzero] at hle ⊢
      rw [if_neg (hsame ▸ hzero)]
      exact (hf.andThen hg).stable cs a b hle hb

/-- A first character and the count that it leads to, which must not be zero. -/
def dispatch (g : Char → Option (List Char → Nat)) : List Char → Nat
  | [] => 0
  | c :: cs =>
    match g c with
    | none => 0
    | some f => if f cs = 0 then 0 else f cs + 1

theorem dispatch_none {g : Char → Option (List Char → Nat)} {c : Char} (h : g c = none) (cs : List Char) :
    dispatch g (c :: cs) = 0 := by
  rw [dispatch, h]

theorem dispatch_some {g : Char → Option (List Char → Nat)} {c : Char} {f : List Char → Nat}
    (h : g c = some f) (cs : List Char) :
    dispatch g (c :: cs) = if f cs = 0 then 0 else f cs + 1 := by
  rw [dispatch, h]

theorem counts_dispatch {g : Char → Option (List Char → Nat)}
    (hg : ∀ c f, g c = some f → isNumberChar c = true ∧ Counts f) : Counts (dispatch g) where
  chars cs c hc := by
    cases cs with
    | nil => cases hc
    | cons d cs =>
      rw [dispatch] at hc
      split at hc
      · cases hc
      · rename_i f hf
        split at hc
        · cases hc
        · obtain ⟨hd, hcounts⟩ := hg d f hf
          rcases List.mem_cons.mp hc with rfl | hc
          · exact hd
          · exact hcounts.chars cs c hc
  stable cs a b hle hb := by
    cases cs with
    | nil =>
      have hzero : dispatch g a = 0 := Nat.le_zero.mp hle
      rw [List.nil_append, List.nil_append, hzero]
      cases b with
      | nil => rfl
      | cons d b =>
        have hnone : g d = none := by
          refine Option.eq_none_iff_forall_ne_some.mpr fun f hf => ?_
          cases (hb d rfl).symm.trans (hg d f hf).1
        exact dispatch_none hnone b
    | cons c cs =>
      rw [List.cons_append] at hle ⊢
      rw [List.cons_append]
      cases hf : g c with
      | none => rw [dispatch_none hf, dispatch_none hf]
      | some f =>
        rw [dispatch_some hf] at hle ⊢
        rw [dispatch_some hf]
        have hfirst : f (cs ++ a) ≤ cs.length := by
          split at hle
          · omega
          · exact Nat.le_of_succ_le_succ hle
        rw [(hg c f hf).2.stable cs a b hfirst hb]

/-- A first character, if it has the property, and the count after it. -/
def oneThen (p : Char → Bool) (f : List Char → Nat) : List Char → Nat
  | [] => 0
  | c :: cs => if p c then 1 + f cs else 0

theorem counts_oneThen {p : Char → Bool} (hp : ∀ c, p c = true → isNumberChar c = true)
    {f : List Char → Nat} (hf : Counts f) : Counts (oneThen p f) where
  chars cs c hc := by
    cases cs with
    | nil => cases hc
    | cons d cs =>
      rw [oneThen] at hc
      split at hc
      · rename_i hd
        rw [Nat.add_comm] at hc
        rcases List.mem_cons.mp hc with rfl | hc
        · exact hp c hd
        · exact hf.chars cs c hc
      · cases hc
  stable cs a b hle hb := by
    cases cs with
    | nil =>
      have hzero : oneThen p f a = 0 := Nat.le_zero.mp hle
      rw [List.nil_append, List.nil_append, hzero]
      cases b with
      | nil => rfl
      | cons d b =>
        have hd : p d = false := hb.eq_false hp d rfl
        rw [oneThen, hd]
        rfl
    | cons c cs =>
      rw [List.cons_append, oneThen] at hle ⊢
      rw [List.cons_append, oneThen]
      split at hle
      · rw [hf.stable cs a b (by simp only [List.length_cons] at hle; omega) hb]
      · rename_i hc
        rw [if_neg hc, if_neg hc]

theorem counts_zero : Counts fun _ => 0 := ⟨fun _ _ hc => absurd hc nofun, fun _ _ _ _ _ => rfl⟩

/-! ## Parts of numbers -/

theorem isNumberChar_of_isDigit {c : Char} (hc : c.isDigit = true) : isNumberChar c = true := by
  simp [isNumberChar, Char.isAlphanum, hc]

theorem isNumberChar_of_isDigitOrUnderscore {c : Char} (hc : isDigitOrUnderscore c = true) :
    isNumberChar c = true := by
  rw [isDigitOrUnderscore, Bool.or_eq_true] at hc
  rcases hc with hc | hc
  · exact isNumberChar_of_isDigit hc
  · simp [isNumberChar, hc]

theorem lt_of_isHexDigit {c : Char} (hc : isHexDigit c = true) : c.toNat < 128 := by
  simp only [isHexDigit, Bool.or_eq_true, Bool.and_eq_true, decide_eq_true_eq, Char.le_def,
    UInt32.le_iff_toNat_le] at hc
  rcases hc with (hc | hc) | hc
  · exact lt_of_isDigit hc
  · exact Nat.lt_of_le_of_lt hc.2 (by decide)
  · exact Nat.lt_of_le_of_lt hc.2 (by decide)

theorem isNumberChar_of_isHexDigit {c : Char} (hc : isHexDigit c = true) : isNumberChar c = true :=
  of_ascii (p := fun c => isHexDigit c = true → isNumberChar c = true) (by decide) (lt_of_isHexDigit hc) hc

/-- The digits of all bases are hexadecimal ones. -/
theorem isHexDigit_of_markedDigit {mark : Char} {p : Char → Bool} (hp : markedDigit? mark = some p) {c : Char}
    (hc : p c = true) : isHexDigit c = true := by
  have hoctal (h : ('0' ≤ c && c ≤ '7') = true) : isHexDigit c = true := by
    simp only [Bool.and_eq_true, decide_eq_true_eq, Char.le_def, UInt32.le_iff_toNat_le] at h
    have hdigit : c.isDigit = true := by
      simp only [Char.isDigit, Bool.and_eq_true, decide_eq_true_eq, UInt32.le_iff_toNat_le]
      exact ⟨h.1, Nat.le_trans h.2 (by decide)⟩
    simp [isHexDigit, hdigit]
  have hbinary (h : (c == '0' || c == '1') = true) : isHexDigit c = true := by
    rw [Bool.or_eq_true, beq_iff_eq, beq_iff_eq] at h
    rcases h with rfl | rfl <;> decide
  unfold markedDigit? at hp
  split at hp
  case h_7 => exact absurd hp nofun
  all_goals obtain rfl := Option.some.inj hp
  · exact hc
  · exact hc
  · exact hoctal hc
  · exact hoctal hc
  · exact hbinary hc
  · exact hbinary hc

theorem isNumberChar_of_markedDigit {mark : Char} {p : Char → Bool} (hp : markedDigit? mark = some p) {c : Char}
    (hc : (p c || c == '_') = true) : isNumberChar c = true := by
  rw [Bool.or_eq_true] at hc
  rcases hc with hc | hc
  · exact isNumberChar_of_isHexDigit (isHexDigit_of_markedDigit hp hc)
  · simp [isNumberChar, hc]

theorem counts_digits : Counts fun cs => (digitsLength? cs).getD 0 := by
  have heq : (fun cs => (digitsLength? cs).getD 0) = oneThen Char.isDigit (runLength isDigitOrUnderscore) := by
    funext cs
    cases cs with
    | nil => rfl
    | cons c cs =>
      rw [digitsLength?, oneThen]
      split <;> rfl
  rw [heq]
  exact counts_oneThen (fun _ => isNumberChar_of_isDigit)
    (counts_runLength fun _ => isNumberChar_of_isDigitOrUnderscore)

theorem counts_marked : Counts fun cs => (markedLength? cs).getD 0 := by
  have heq : (fun cs => (markedLength? cs).getD 0) = dispatch fun c => if c = '0' then
      some (dispatch fun mark => (markedDigit? mark).map fun p => runLength fun c => p c || c == '_')
      else none := by
    funext cs
    unfold markedLength?
    split
    · rename_i mark cs
      rw [dispatch_some (if_pos rfl)]
      cases hp : markedDigit? mark with
      | none =>
        rw [dispatch_none (by rw [hp]; rfl)]
        rfl
      | some p =>
        rw [dispatch_some (by rw [hp]; rfl)]
        cases hn : runLength (fun c => p c || c == '_') cs <;> simp [hn]
    · rename_i hno
      cases cs with
      | nil => rfl
      | cons c cs =>
        by_cases hc : c = '0'
        · subst hc
          cases cs with
          | nil => rfl
          | cons mark cs => exact (hno mark cs rfl).elim
        · simp [dispatch, hc]
  rw [heq]
  refine counts_dispatch fun c f hf => ?_
  split at hf
  · rename_i hc
    obtain rfl := Option.some.inj hf
    refine ⟨by rw [hc]; decide, counts_dispatch fun mark g hg => ?_⟩
    obtain ⟨p, hp, rfl⟩ := Option.map_eq_some_iff.mp hg
    refine ⟨?_, counts_runLength fun c hc => isNumberChar_of_markedDigit hp hc⟩
    unfold markedDigit? at hp
    split at hp
    all_goals first | decide | cases hp
  · cases hf

/-- Digits after a point, or digits and whatever digits are after a point behind them. -/
theorem mantissa_eq (cs : List Char) : (mantissaLength? cs).getD 0 =
    if dispatch (fun c => if c = '.' then some fun cs => (digitsLength? cs).getD 0 else none) cs = 0 then
      if (digitsLength? cs).getD 0 = 0 then 0
      else (digitsLength? cs).getD 0 +
        oneThen (· == '.') (runLength isDigitOrUnderscore) (cs.drop ((digitsLength? cs).getD 0))
    else dispatch (fun c => if c = '.' then some fun cs => (digitsLength? cs).getD 0 else none) cs := by
  cases cs with
  | nil => rfl
  | cons c cs =>
    by_cases hc : c = '.'
    · subst hc
      rw [dispatch_some (if_pos rfl)]
      cases cs with
      | nil => rfl
      | cons d cs =>
        by_cases hd : d.isDigit = true
        · simp [mantissaLength?, digitsLength?, hd]
          omega
        · simp [mantissaLength?, digitsLength?, hd, show '.'.isDigit = false from rfl]
    · rw [dispatch_none (if_neg hc)]
      by_cases hdigit : c.isDigit = true
      · have hdrop : (c :: cs).drop (1 + runLength isDigitOrUnderscore cs) =
            cs.drop (runLength isDigitOrUnderscore cs) := by
          rw [Nat.add_comm, List.drop_succ_cons]
        rw [mantissaLength?.eq_2 c cs fun _ _ heq _ => hc heq, if_pos hdigit]
        simp only [digitsLength?, if_pos hdigit, Option.getD_some, hdrop]
        split
        · rename_i fraction hfraction
          simp only [hfraction, oneThen, Option.getD_some]
          simp
          omega
        · rename_i hno
          cases hrest : cs.drop (runLength isDigitOrUnderscore cs) with
          | nil => simp [oneThen]
          | cons d ds =>
            have hd : (d == '.') = false := beq_eq_false_iff_ne.mpr fun heq => hno ds (by rw [hrest, heq])
            simp [oneThen, hd]
      · have hmantissa : mantissaLength? (c :: cs) = none := by
          rw [mantissaLength?, if_neg hdigit]
          exact fun _ _ heq _ => hc heq
        simp [hmantissa, digitsLength?, hdigit]

theorem counts_mantissa : Counts fun cs => (mantissaLength? cs).getD 0 := by
  rw [funext mantissa_eq]
  refine Counts.orElse (counts_dispatch fun c f hf => ?_) (counts_digits.seq (counts_oneThen ?_ ?_))
  · split at hf
    · rename_i hc
      obtain rfl := Option.some.inj hf
      exact ⟨by rw [hc]; decide, counts_digits⟩
    · exact absurd hf nofun
  · intro c hc
    rw [beq_iff_eq.mp hc]
    decide
  · exact counts_runLength fun _ => isNumberChar_of_isDigitOrUnderscore

/-- Digits after the mark, with or without a sign before them. -/
theorem exponent_eq (cs : List Char) : exponentLength cs =
    dispatch (fun mark => if mark == 'e' || mark == 'E' then some fun cs =>
      if dispatch (fun sign => if sign == '+' || sign == '-' then
        some fun cs => (digitsLength? cs).getD 0 else none) cs = 0 then (digitsLength? cs).getD 0
      else dispatch (fun sign => if sign == '+' || sign == '-' then
        some fun cs => (digitsLength? cs).getD 0 else none) cs
      else none) cs := by
  cases cs with
  | nil => rfl
  | cons mark cs =>
    by_cases hmark : (mark == 'e' || mark == 'E') = true
    · rw [dispatch_some (if_pos hmark)]
      cases cs with
      | nil => simp [exponentLength, digitsLength?, dispatch]
      | cons sign cs =>
        by_cases hsign : (sign == '+' || sign == '-') = true
        · have hno : digitsLength? (sign :: cs) = none := by
            rw [Bool.or_eq_true, beq_iff_eq, beq_iff_eq] at hsign
            rcases hsign with rfl | rfl <;> rfl
          rw [dispatch_some (if_pos hsign)]
          simp only [exponentLength, if_pos hmark, if_pos hsign, hno]
          cases hdigits : digitsLength? cs with
          | none => rfl
          | some n => simp [Nat.pos_iff_ne_zero.mp (digitsLength?_ends hdigits).1]
        · rw [dispatch_none (if_neg hsign)]
          simp only [exponentLength, if_pos hmark, if_neg hsign, if_true]
          cases hdigits : digitsLength? (sign :: cs) with
          | none => rfl
          | some n => simp [Nat.pos_iff_ne_zero.mp (digitsLength?_ends hdigits).1]
    · rw [dispatch_none (if_neg hmark)]
      simp only [exponentLength, if_neg hmark]

theorem counts_exponent : Counts exponentLength := by
  rw [funext exponent_eq]
  refine counts_dispatch fun mark f hf => ?_
  split at hf
  · rename_i hmark
    obtain rfl := Option.some.inj hf
    rw [Bool.or_eq_true, beq_iff_eq, beq_iff_eq] at hmark
    refine ⟨by rcases hmark with rfl | rfl <;> decide, ?_⟩
    refine Counts.orElse (counts_dispatch fun sign g hg => ?_) counts_digits
    split at hg
    · rename_i hsign
      obtain rfl := Option.some.inj hg
      rw [Bool.or_eq_true, beq_iff_eq, beq_iff_eq] at hsign
      exact ⟨by rcases hsign with rfl | rfl <;> decide, counts_digits⟩
    · exact absurd hg nofun
  · exact absurd hf nofun

theorem imaginary_eq (cs : List Char) :
    imaginaryLength cs = oneThen (fun c => c == 'j' || c == 'J') (fun _ => 0) cs := by
  unfold imaginaryLength
  split
  · rfl
  · rfl
  · rename_i hj hJ
    cases cs with
    | nil => rfl
    | cons c cs =>
      have hc : (c == 'j' || c == 'J') = false := by
        rw [Bool.or_eq_false_iff, beq_eq_false_iff_ne, beq_eq_false_iff_ne]
        exact ⟨fun heq => hj cs (by rw [heq]), fun heq => hJ cs (by rw [heq])⟩
      rw [oneThen, hc]
      rfl

theorem counts_imaginary : Counts imaginaryLength := by
  rw [funext imaginary_eq]
  refine counts_oneThen (fun c hc => ?_) counts_zero
  rw [Bool.or_eq_true, beq_iff_eq, beq_iff_eq] at hc
  rcases hc with rfl | rfl <;> decide

/-! ## Numbers -/

theorem number_eq (cs : List Char) : (numberLength? cs).getD 0 =
    if (markedLength? cs).getD 0 = 0 then
      if (mantissaLength? cs).getD 0 = 0 then 0
      else (mantissaLength? cs).getD 0 +
        (exponentLength (cs.drop ((mantissaLength? cs).getD 0)) + imaginaryLength
          ((cs.drop ((mantissaLength? cs).getD 0)).drop
            (exponentLength (cs.drop ((mantissaLength? cs).getD 0)))))
    else (markedLength? cs).getD 0 := by
  rw [numberLength?]
  cases hmarked : markedLength? cs with
  | some n => simp [Nat.pos_iff_ne_zero.mp (markedLength?_ends hmarked).1]
  | none =>
    cases hmantissa : mantissaLength? cs with
    | none => rfl
    | some m =>
      simp [Nat.pos_iff_ne_zero.mp (mantissaLength?_ends hmantissa).1, List.drop_drop, Nat.add_assoc]

theorem counts_number : Counts fun cs => (numberLength? cs).getD 0 := by
  rw [funext number_eq]
  exact counts_marked.orElse (counts_mantissa.seq (counts_exponent.andThen counts_imaginary))

theorem isBlank_of_isNumberChar {c : Char} (hc : isNumberChar c = true) : Text.isBlank c = false := by
  have hascii : c.toNat < 128 := by
    simp only [isNumberChar, Char.isAlphanum, Bool.or_eq_true, beq_iff_eq] at hc
    rcases hc with ((((hletter | hdigit) | rfl) | rfl) | rfl) | rfl
    · rcases Bool.or_eq_true_iff.mp hletter with hupper | hlower
      · exact Nat.lt_of_le_of_lt (of_decide_eq_true hupper).2 (by decide)
      · exact Nat.lt_of_le_of_lt (of_decide_eq_true (Bool.and_eq_true_iff.mp hlower).2) (by decide)
    · exact lt_of_isDigit hdigit
    all_goals decide
  exact of_ascii (p := fun c => isNumberChar c = true → Text.isBlank c = false) (by decide) hascii hc

namespace IsNumber

variable {cs : List Char}

theorem pos (h : IsNumber cs) : 0 < cs.length := by
  obtain ⟨a, ha⟩ := h
  exact (numberLength?_ends ha).1

theorem chars (h : IsNumber cs) : ∀ c ∈ cs, isNumberChar c = true := by
  obtain ⟨a, ha⟩ := h
  intro c hc
  refine counts_number.chars (cs ++ a) c ?_
  rwa [ha, Option.getD_some, List.take_left]

/-- A number takes the same characters wherever it stands. -/
theorem length_append (h : IsNumber cs) {rest : List Char} (hrest : Quiet rest) :
    numberLength? (cs ++ rest) = some cs.length := by
  have hpos := h.pos
  obtain ⟨a, ha⟩ := h
  have hlength : (numberLength? (cs ++ a)).getD 0 = cs.length := by rw [ha, Option.getD_some]
  have hsame := counts_number.stable cs a rest (Nat.le_of_eq hlength) hrest
  cases hn : numberLength? (cs ++ rest) with
  | none =>
    simp only [hn, hlength, Option.getD_none] at hsame
    omega
  | some n =>
    simp only [hn, hlength, Option.getD_some] at hsame
    rw [hsame]

/-- A number begins with a digit or a point. -/
theorem first {c : Char} (h : IsNumber (c :: cs)) : c.isDigit = true ∨ c = '.' := by
  obtain ⟨a, ha⟩ := h
  by_contra hno
  rw [not_or, Bool.not_eq_true] at hno
  rw [List.cons_append, numberLength?_eq_none hno.1 fun hc => absurd hc hno.2] at ha
  exact absurd ha nofun

theorem starts {c : Char} (h : IsNumber (c :: cs)) :
    startsToken c = true ∧ isPrefixLetter c = false ∧ isQuote c = false := by
  rcases h.first with hc | rfl
  · exact of_ascii (p := fun c => c.isDigit = true →
      startsToken c = true ∧ isPrefixLetter c = false ∧ isQuote c = false) (by decide) (lt_of_isDigit hc) hc
  · decide

/-- A digit follows a point that a number begins with. -/
theorem fraction (h : IsNumber ('.' :: cs)) : ∃ d ds, cs = d :: ds ∧ d.isDigit = true := by
  obtain ⟨a, ha⟩ := h
  cases cs with
  | nil =>
    rw [List.cons_append, List.nil_append, numberLength?, markedLength?] at ha
    · cases a with
      | nil => cases ha
      | cons d a =>
        simp only [mantissaLength?] at ha
        split at ha
        · cases ha
        · rename_i m hm
          have hlength := Option.some.inj ha
          rw [List.length_singleton] at hlength
          split at hm
          · obtain rfl := Option.some.inj hm
            omega
          · cases hm
    · intro mark cs hc
      exact absurd (List.cons.inj hc).1 (by decide)
  | cons d ds =>
    refine ⟨d, ds, rfl, ?_⟩
    by_contra hd
    rw [Bool.not_eq_true] at hd
    have hnone : numberLength? ('.' :: (d :: ds ++ a)) = none := by
      refine numberLength?_eq_none (by decide) fun _ e he => ?_
      obtain rfl := Option.some.inj he
      exact hd
    cases hnone.symm.trans ha

end IsNumber

/-- A number is cut from a text where nothing follows it that makes it longer. -/
theorem leading_number {c : Char} {cs rest : List Char} (h : IsNumber (c :: cs)) (hrest : Quiet rest) :
    leading c (cs ++ rest) = .ok (token .number, cs.length + 1) := by
  have hfirst := h.starts
  have hlength := h.length_append hrest
  rw [List.cons_append, List.length_cons] at hlength
  rw [leading_eq hfirst.1, literalPrefix?_cons_eq_none _ hfirst.2.1 hfirst.2.2, hlength]

end TypeWatch.Lexeme
