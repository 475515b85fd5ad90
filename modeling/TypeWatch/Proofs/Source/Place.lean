import TypeWatch.Source.Position

/-! # The order of places

A place is not after another one if neither its offset nor its line is greater. In a text with a
character that is no line feed at its end, the line of that character counts (`line_le_lineCount`). -/
namespace TypeWatch
set_option autoImplicit false

/-! ## Order -/

namespace Position

instance : LE Position := ⟨fun p q => p.offset ≤ q.offset ∧ p.line ≤ q.line⟩

/-- A place is before another one if there is a character between them. -/
instance : LT Position := ⟨fun p q => p.offset < q.offset ∧ p.line ≤ q.line⟩

theorem le_refl (p : Position) : p ≤ p := ⟨Nat.le_refl _, Nat.le_refl _⟩

theorem le_trans {p q r : Position} (h : p ≤ q) (h' : q ≤ r) : p ≤ r :=
  ⟨Nat.le_trans h.1 h'.1, Nat.le_trans h.2 h'.2⟩

theorem le_of_lt {p q : Position} (h : p < q) : p ≤ q := ⟨Nat.le_of_lt h.1, h.2⟩

theorem lt_of_lt_of_le {p q r : Position} (h : p < q) (h' : q ≤ r) : p < r :=
  ⟨Nat.lt_of_lt_of_le h.1 h'.1, Nat.le_trans h.2 h'.2⟩

theorem lt_of_le_of_lt {p q r : Position} (h : p ≤ q) (h' : q < r) : p < r :=
  ⟨Nat.lt_of_le_of_lt h.1 h'.1, Nat.le_trans h.2 h'.2⟩

theorem lt_irrefl (p : Position) : ¬ p < p := fun h => Nat.lt_irrefl _ h.1

theorem le_after (p : Position) (cs : List Char) : p ≤ p.after cs :=
  ⟨Nat.le_add_right _ _, Nat.le_add_right _ _⟩

theorem lt_after (p : Position) {cs : List Char} (h : cs ≠ []) : p < p.after cs := by
  refine ⟨?_, Nat.le_add_right _ _⟩
  cases cs with
  | nil => exact absurd rfl h
  | cons c cs =>
    have hc := c.utf8Size_pos
    simp only [after, Text.byteLength_cons]
    omega

end Position

/-! ## Lines -/

namespace Text

theorem linesWithEnds_ne_nil {cs : List Char} (h : cs ≠ []) : linesWithEnds cs ≠ [] := by
  cases cs with
  | nil => exact absurd rfl h
  | cons c cs =>
    unfold linesWithEnds
    split
    · simp
    · split <;> simp

/-- Every line feed ends a line, and what stands after the last one is a line too. -/
theorem lineCount_cons (c : Char) (cs : List Char) :
    lineCount (c :: cs) =
      if c = '\n' then lineCount cs + 1 else if cs = [] then 1 else lineCount cs := by
  by_cases hc : c = '\n'
  · simp [lineCount, linesWithEnds, hc]
  · cases cs with
    | nil => simp [lineCount, linesWithEnds, hc]
    | cons d ds =>
      have hne := linesWithEnds_ne_nil (List.cons_ne_nil d ds)
      obtain ⟨l, ls, hl⟩ := List.exists_cons_of_ne_nil hne
      rw [lineCount, linesWithEnds, hl]
      simp [hc, lineCount, hl]

theorem one_le_lineCount {cs : List Char} (h : cs ≠ []) : 1 ≤ lineCount cs :=
  List.length_pos_iff.mpr (linesWithEnds_ne_nil h)

/-- The line of a character that is no line feed is one of the lines of the text. -/
theorem lineFeeds_lt_lineCount {cs : List Char} {c : Char} (hlast : cs.getLast? = some c)
    (hc : c ≠ '\n') (rest : List Char) : lineFeeds cs < lineCount (cs ++ rest) := by
  induction cs with
  | nil => simp at hlast
  | cons d ds ih =>
    rw [List.cons_append, lineCount_cons]
    cases ds with
    | nil =>
      obtain rfl : d = c := by simpa using hlast
      have hfeeds : lineFeeds [d] = 0 := by simp [lineFeeds, hc]
      rw [hfeeds, if_neg hc]
      split
      · exact Nat.one_pos
      · rename_i hne
        exact one_le_lineCount hne
    | cons e es =>
      have hlt := ih (by simpa [List.getLast?_cons_cons] using hlast)
      by_cases hd : d = '\n'
      · have hfeeds : lineFeeds (d :: e :: es) = lineFeeds (e :: es) + 1 := by simp [lineFeeds, hd]
        rw [if_pos hd, hfeeds]
        omega
      · have hfeeds : lineFeeds (d :: e :: es) = lineFeeds (e :: es) := by
          simp [lineFeeds, List.count_cons, hd]
        rw [if_neg hd, if_neg (by simp), hfeeds]
        exact hlt

end Text

/-- The place after some text whose last character is no line feed is on a line of the text. -/
theorem Position.line_le_lineCount {cs : List Char} {c : Char} (hlast : cs.getLast? = some c)
    (hc : c ≠ '\n') (rest : List Char) : (first.after cs).line ≤ Text.lineCount (cs ++ rest) := by
  have hlt := Text.lineFeeds_lt_lineCount hlast hc rest
  simp only [first, after]
  omega

end TypeWatch
