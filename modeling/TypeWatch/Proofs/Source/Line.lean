import TypeWatch.Proofs.Source.Place

/-! # The line of an offset

A text cut at the beginning of a line is cut between two of its lines (`linesWithEnds_append`), so the
line of an offset is known from the text around it (`lineAt_around`). Every cut that is not the end of a
text is in such a line (`exists_around`), and the end counts to the last line (`lineAt_end`). -/
namespace TypeWatch.Text
set_option autoImplicit false

/-! ## Whole lines -/

/-- A text of whole lines, after which a new line begins. -/
def WholeLines (cs : List Char) : Prop := ∀ c ∈ cs.getLast?, c = '\n'

theorem WholeLines.of_cons {c : Char} {cs : List Char} (h : WholeLines (c :: cs)) : WholeLines cs := by
  cases cs with
  | nil => exact fun _ hd => absurd hd (Option.not_mem_none _)
  | cons d ds =>
    intro e he
    apply h e
    rwa [List.getLast?_cons_cons]

/-- Some text of one line, and the line feed that ends it. Only at the end of a text, where nothing
stands after it, a line has no line feed. -/
structure IsLine (line rest : List Char) : Prop where
  nonempty : line ≠ []
  alone : '\n' ∉ line.dropLast
  ended : line.getLast? = some '\n' ∨ rest = []

section Lines

variable {c : Char} {cs line rest : List Char}

theorem linesWithEnds_feed (cs : List Char) : linesWithEnds ('\n' :: cs) = ['\n'] :: linesWithEnds cs := by
  simp [linesWithEnds]

theorem linesWithEnds_cons {l : List Char} {ls : List (List Char)} (hc : c ≠ '\n')
    (h : linesWithEnds cs = l :: ls) : linesWithEnds (c :: cs) = (c :: l) :: ls := by
  simp [linesWithEnds, hc, h]

/-- The first line of a text, and the lines after it. -/
theorem linesWithEnds_line (h : IsLine line rest) :
    linesWithEnds (line ++ rest) = line :: linesWithEnds rest := by
  induction line with
  | nil => exact absurd rfl h.nonempty
  | cons c cs ih =>
    cases cs with
    | nil =>
      by_cases hc : c = '\n'
      · subst hc
        exact linesWithEnds_feed rest
      · have hrest : rest = [] := h.ended.resolve_left (by simpa using hc)
        subst hrest
        simp [linesWithEnds]
    | cons d ds =>
      have hc : c ≠ '\n' := by
        intro hc
        apply h.alone
        simp [hc]
      apply linesWithEnds_cons hc
      apply ih
      refine ⟨List.cons_ne_nil d ds, ?_, ?_⟩
      · intro hmem
        apply h.alone
        rw [List.dropLast_cons_of_ne_nil (List.cons_ne_nil d ds)]
        exact List.mem_cons_of_mem c hmem
      · simpa [List.getLast?_cons_cons] using h.ended

/-- The lines of a text are those before and those after the beginning of a line. -/
theorem linesWithEnds_append {before : List Char} (h : WholeLines before) (rest : List Char) :
    linesWithEnds (before ++ rest) = linesWithEnds before ++ linesWithEnds rest := by
  induction before with
  | nil => rfl
  | cons c cs ih =>
    have happend := ih h.of_cons
    by_cases hc : c = '\n'
    · subst hc
      rw [List.cons_append, linesWithEnds_feed, linesWithEnds_feed, happend, List.cons_append]
    · cases cs with
      | nil => simp [WholeLines, hc] at h
      | cons d ds =>
        obtain ⟨l, ls, hlines⟩ := List.exists_cons_of_ne_nil (linesWithEnds_ne_nil (List.cons_ne_nil d ds))
        rw [hlines] at happend
        rw [List.cons_append, linesWithEnds_cons hc happend, linesWithEnds_cons hc hlines]
        rfl

theorem lineCount_append {before : List Char} (h : WholeLines before) (rest : List Char) :
    lineCount (before ++ rest) = lineCount before + lineCount rest := by
  rw [lineCount, linesWithEnds_append h, List.length_append]
  rfl

/-- Before the beginning of a line there are as many lines as line feeds. -/
theorem lineCount_eq_lineFeeds {before : List Char} (h : WholeLines before) :
    lineCount before = lineFeeds before := by
  induction before with
  | nil => rfl
  | cons c cs ih =>
    rw [lineCount_cons]
    by_cases hc : c = '\n'
    · simp [hc, ih h.of_cons, lineFeeds]
    · have hne : cs ≠ [] := by
        intro hnil
        simp [hnil, WholeLines, hc] at h
      rw [if_neg hc, if_neg hne, ih h.of_cons]
      simp [lineFeeds, hc]

end Lines

/-! ## Look-up -/

section LookUp

variable {source : String} {before lead tail rest cs : List Char}

/-- Lines that end before the offset are passed. -/
theorem findLine_append {offset start number : Nat} {ls : List (List Char)}
    (h : start + byteLength ls.flatten ≤ offset) (ms : List (List Char)) :
    findLine offset start number (ls ++ ms) =
      findLine offset (start + byteLength ls.flatten) (number + ls.length) ms := by
  induction ls generalizing start number with
  | nil => rfl
  | cons l ls ih =>
    rw [List.flatten_cons, byteLength_append] at h ⊢
    have hpast : ¬offset < start + byteLength l := by omega
    have hnext := @ih (start + byteLength l) (number + 1) (by omega)
    rw [List.cons_append, findLine, if_neg hpast, hnext, List.length_cons]
    congr 1 <;> omega

theorem byteLength_pos (h : cs ≠ []) : 0 < byteLength cs := by
  cases cs with
  | nil => exact absurd rfl h
  | cons c cs =>
    have hc := c.utf8Size_pos
    rw [byteLength_cons]
    omega

/-- The line of an offset that is in the text: all of the text before the line, the part of the line
before the offset and the part behind it. -/
theorem lineAt_around (hsource : source.toList = before ++ (lead ++ tail) ++ rest)
    (hbefore : WholeLines before) (hline : IsLine (lead ++ tail) rest) (htail : tail ≠ []) :
    lineAt source (byteLength (before ++ lead)) =
      some ⟨lineFeeds before + 1, lead ++ tail, byteLength lead⟩ := by
  have hpos := byteLength_pos htail
  have hinside : ¬byteLength source.toList < byteLength (before ++ lead) := by
    simp only [hsource, byteLength_append]
    omega
  have hlines : linesWithEnds source.toList =
      linesWithEnds before ++ (lead ++ tail) :: linesWithEnds rest := by
    rw [hsource, List.append_assoc, linesWithEnds_append hbefore, linesWithEnds_line hline]
  have hpassed : 0 + byteLength (linesWithEnds before).flatten ≤ byteLength (before ++ lead) := by
    rw [linesWithEnds_flatten, byteLength_append]
    omega
  have hhere : byteLength (before ++ lead) < 0 + byteLength before + byteLength (lead ++ tail) := by
    simp only [byteLength_append]
    omega
  have hfound : findLine (byteLength (before ++ lead)) 0 1 (linesWithEnds source.toList) =
      some ⟨lineFeeds before + 1, lead ++ tail, byteLength lead⟩ := by
    rw [hlines, findLine_append hpassed, linesWithEnds_flatten, findLine, if_pos hhere]
    have hnumber := lineCount_eq_lineFeeds hbefore
    rw [lineCount] at hnumber
    have hcolumn : byteLength (before ++ lead) - (0 + byteLength before) = byteLength lead := by
      rw [byteLength_append]
      omega
    rw [hnumber, hcolumn, Nat.add_comm 1]
  simp only [lineAt, if_neg hinside, hfound]

/-- The last line of a text, without its end. An empty text has an empty one. -/
def lastLine (cs : List Char) : List Char := ((linesWithEnds cs).getLast?.map withoutEnd).getD []

/-- Just past the text there is its last line. -/
theorem lineAt_end (source : String) :
    lineAt source (byteLength source.toList) =
      some ⟨max 1 (lineCount source.toList), lastLine source.toList,
        byteLength (lastLine source.toList)⟩ := by
  have hpassed : 0 + byteLength (linesWithEnds source.toList).flatten ≤ byteLength source.toList := by
    rw [linesWithEnds_flatten]
    omega
  have hnone : findLine (byteLength source.toList) 0 1 (linesWithEnds source.toList ++ []) = _ :=
    findLine_append hpassed []
  rw [List.append_nil, findLine] at hnone
  simp only [lineAt, Nat.lt_irrefl, if_false, hnone, lastLine, lineCount]

end LookUp

/-! ## Around a cut -/

theorem wholeLines_nil : WholeLines [] := fun _ h => absurd h (Option.not_mem_none _)

/-- What stands behind the last line feed of a text, and what is up to it. -/
theorem exists_lead (cs : List Char) : ∃ before lead, cs = before ++ lead ∧ WholeLines before ∧ '\n' ∉ lead := by
  induction cs with
  | nil => exact ⟨[], [], rfl, wholeLines_nil, List.not_mem_nil⟩
  | cons c cs ih =>
    obtain ⟨before, lead, rfl, hbefore, hlead⟩ := ih
    cases before with
    | nil =>
      by_cases hc : c = '\n'
      · refine ⟨[c], lead, rfl, ?_, hlead⟩
        simpa [WholeLines] using hc
      · refine ⟨[], c :: lead, rfl, wholeLines_nil, ?_⟩
        simp [Ne.symm hc, hlead]
    | cons d ds =>
      refine ⟨c :: d :: ds, lead, rfl, ?_, hlead⟩
      rwa [WholeLines, List.getLast?_cons_cons]

/-- The first line of a text, and what stands behind it. -/
theorem exists_line {cs : List Char} (h : cs ≠ []) : ∃ line rest, cs = line ++ rest ∧ IsLine line rest := by
  induction cs with
  | nil => exact absurd rfl h
  | cons c cs ih =>
    by_cases hc : c = '\n'
    · exact ⟨[c], cs, rfl, List.cons_ne_nil _ _, by simp, .inl (by simp [hc])⟩
    · by_cases hnil : cs = []
      · exact ⟨[c], cs, rfl, List.cons_ne_nil _ _, by simp, .inr hnil⟩
      · obtain ⟨line, rest, rfl, hline⟩ := ih hnil
        obtain ⟨d, ds, rfl⟩ := List.exists_cons_of_ne_nil hline.nonempty
        refine ⟨c :: d :: ds, rest, rfl, List.cons_ne_nil _ _, ?_, ?_⟩
        · rw [List.dropLast_cons_of_ne_nil (List.cons_ne_nil d ds)]
          simp [Ne.symm hc, hline.alone]
        · simpa [List.getLast?_cons_cons] using hline.ended

theorem IsLine.append {lead line rest : List Char} (h : IsLine line rest) (hlead : '\n' ∉ lead) :
    IsLine (lead ++ line) rest := by
  refine ⟨List.append_ne_nil_of_right_ne_nil _ h.nonempty, ?_, ?_⟩
  · rw [List.dropLast_append_of_ne_nil h.nonempty, List.mem_append]
    rintro (hmem | hmem)
    · exact hlead hmem
    · exact h.alone hmem
  · rw [List.getLast?_append, Option.or_of_isSome (by simp [h.nonempty])]
    exact h.ended

/-- A cut in front of a character is in a line: the text before that line, the two parts of the line and
the text behind it. -/
theorem exists_around (pre : List Char) {post : List Char} (h : post ≠ []) :
    ∃ before lead tail rest, pre = before ++ lead ∧ post = tail ++ rest ∧ WholeLines before ∧
      '\n' ∉ lead ∧ tail ≠ [] ∧ IsLine (lead ++ tail) rest := by
  obtain ⟨before, lead, rfl, hbefore, hlead⟩ := exists_lead pre
  obtain ⟨tail, rest, rfl, htail⟩ := exists_line h
  exact ⟨before, lead, tail, rest, rfl, rfl, hbefore, hlead, htail.nonempty, htail.append hlead⟩

end TypeWatch.Text
