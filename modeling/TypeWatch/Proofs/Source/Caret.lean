import TypeWatch.Source.Excerpt
import TypeWatch.Proofs.Source.Line

/-! # The caret below a line

An error is shown with a caret below its line. As many dashes stand before the caret as the text between
the indentation of the line and the place of the error has bytes (`render_place`), so the caret is below
its character if no character before it on the line takes more than one byte, and only then. -/
namespace TypeWatch
set_option autoImplicit false

namespace Text

/-- White space at the end of a text is not printed. -/
theorem trimEnd_append {cs blank : List Char} (h : ∀ c ∈ blank, isBlank c = true) :
    trimEnd (cs ++ blank) = trimEnd cs := by
  rw [trimEnd, trimEnd, List.reverse_append, List.dropWhile_append_of_pos]
  intro c hc
  exact h c (List.mem_reverse.mp hc)

theorem length_le_byteLength (cs : List Char) : cs.length ≤ byteLength cs := by
  induction cs with
  | nil => exact Nat.le_refl 0
  | cons c cs ih =>
    have hc := c.utf8Size_pos
    rw [List.length_cons, byteLength_cons]
    omega

/-- A text has as many bytes as characters if all of its characters are ASCII, and only then. -/
theorem byteLength_eq_length_iff (cs : List Char) :
    byteLength cs = cs.length ↔ ∀ c ∈ cs, c.toNat < 128 := by
  induction cs with
  | nil => simp
  | cons c cs ih =>
    have hc := c.utf8Size_pos
    have hle := length_le_byteLength cs
    have hone : c.utf8Size = 1 ↔ c.toNat < 128 := by
      rw [Char.utf8Size_eq_one_iff, UInt32.le_iff_toNat_le]
      show c.toNat ≤ 127 ↔ c.toNat < 128
      omega
    rw [List.forall_mem_cons, ← ih, ← hone, byteLength_cons, List.length_cons]
    omega

theorem alignRight_singleton (fill c : Char) (width : Nat) :
    alignRight fill (width + 1) [c] = List.replicate width fill ++ [c] := by
  simp [alignRight]

end Text

namespace Excerpt

/-- A place in a line of a text: after the spaces and tabs that the line begins with, and in front of a
character that belongs to no line break. -/
structure Place (source : String) (offset : Nat) where
  /-- The lines above. -/
  before : List Char
  indent : List Char
  /-- What is between the indentation and the place. -/
  shown : List Char
  /-- What is between the place and the line break. -/
  behind : List Char
  ending : List Char
  /-- The lines below. -/
  rest : List Char
  text : source.toList = before ++ (indent ++ (shown ++ behind) ++ ending) ++ rest
  offset_eq : offset = Text.byteLength (before ++ indent ++ shown)
  begins : Text.WholeLines before
  indented : ∀ c ∈ indent, isIndentation c = true
  unindented : ∀ c ∈ (shown ++ behind).head?, isIndentation c = false
  inside : behind ≠ []
  oneLine : '\n' ∉ shown ++ behind
  ended : ending = ['\n'] ∨ ending = ['\r', '\n'] ∨ ending = [] ∧ rest = []

namespace Place

variable {source : String} {offset : Nat} (p : Place source offset)

/-- The line in three rows, with so many dashes before the caret. The three bars are in one column, and
so are the first character of the line and the first dash. -/
def picture (columns : Nat) : List Char :=
  let number := (toString (Text.lineFeeds p.before + 1)).toList
  let margin := List.replicate (number.length + 1) ' ' ++ ['|']
  margin ++ ['\n'] ++
    (number ++ " | ".toList ++ Text.trimEnd (p.shown ++ p.behind) ++ ['\n']) ++
    (margin ++ [' '] ++ List.replicate columns '-' ++ ['^', '\n'])

theorem picture_inj {m n : Nat} : p.picture m = p.picture n ↔ m = n := by
  constructor
  · intro h
    simpa [picture] using congrArg List.length h
  · exact congrArg p.picture

theorem isLine : Text.IsLine (p.indent ++ (p.shown ++ p.behind) ++ p.ending) p.rest := by
  have hbody : '\n' ∉ p.indent ++ (p.shown ++ p.behind) := by
    rw [List.mem_append]
    rintro (hmem | hmem)
    · exact absurd (p.indented _ hmem) (by decide)
    · exact p.oneLine hmem
  have hne : p.indent ++ (p.shown ++ p.behind) ≠ [] := by simp [p.inside]
  rcases p.ended with hending | hending | ⟨hending, hrest⟩
  · refine ⟨by simp [hending], ?_, .inl (by simp [hending])⟩
    rwa [hending, List.dropLast_concat]
  · have hsplit : p.indent ++ (p.shown ++ p.behind) ++ ['\r', '\n'] =
        p.indent ++ (p.shown ++ p.behind) ++ ['\r'] ++ ['\n'] := by simp
    refine ⟨by simp [hending], ?_, .inl (by simp [hending])⟩
    rw [hending, hsplit, List.dropLast_concat, List.mem_append]
    rintro (hmem | hmem)
    · exact hbody hmem
    · exact absurd hmem (by decide)
  · rw [hending, List.append_nil]
    exact ⟨hne, fun hmem => hbody (List.dropLast_subset _ hmem), .inr hrest⟩

theorem lineAt_eq : Text.lineAt source offset = some
    ⟨Text.lineFeeds p.before + 1, p.indent ++ (p.shown ++ p.behind) ++ p.ending,
      Text.byteLength (p.indent ++ p.shown)⟩ := by
  have hcut : p.indent ++ (p.shown ++ p.behind) ++ p.ending =
      p.indent ++ p.shown ++ (p.behind ++ p.ending) := by simp only [List.append_assoc]
  have htext : source.toList = p.before ++ (p.indent ++ p.shown ++ (p.behind ++ p.ending)) ++ p.rest := hcut ▸ p.text
  have hfound := Text.lineAt_around htext p.begins (hcut ▸ p.isLine)
    (List.append_ne_nil_of_left_ne_nil p.inside _)
  rw [← List.append_assoc, ← p.offset_eq] at hfound
  rw [hfound, hcut]

theorem dropWhile_line :
    (p.indent ++ (p.shown ++ p.behind) ++ p.ending).dropWhile isIndentation =
      p.shown ++ p.behind ++ p.ending := by
  obtain ⟨c, cs, hcs⟩ : ∃ c cs, p.shown ++ p.behind = c :: cs :=
    List.exists_cons_of_ne_nil (List.append_ne_nil_of_right_ne_nil _ p.inside)
  have hc := p.unindented c (by simp [hcs])
  rw [List.append_assoc, List.dropWhile_append_of_pos p.indented, hcs, List.cons_append,
    List.dropWhile_cons_of_neg (by simp [hc])]

theorem indentation_line :
    indentation (p.indent ++ (p.shown ++ p.behind) ++ p.ending) = Text.byteLength p.indent := by
  have hwhole := congrArg List.length (List.takeWhile_append_dropWhile (p := isIndentation)
    (l := p.indent ++ (p.shown ++ p.behind) ++ p.ending))
  rw [dropWhile_line] at hwhole
  have hbytes : Text.byteLength p.indent = p.indent.length := by
    rw [Text.byteLength_eq_length_iff]
    intro c hc
    have hindent := p.indented c hc
    simp only [isIndentation, Bool.or_eq_true, beq_iff_eq] at hindent
    rcases hindent with rfl | rfl <;> decide
  simp only [List.length_append] at hwhole
  rw [indentation, hbytes]
  omega

theorem trimEnd_line :
    Text.trimEnd (p.shown ++ p.behind ++ p.ending) = Text.trimEnd (p.shown ++ p.behind) := by
  have hfeed : Text.isBlank '\n' = true := by decide
  have hreturn : Text.isBlank '\r' = true := by decide
  apply Text.trimEnd_append
  rcases p.ended with hending | hending | ⟨hending, -⟩
  all_goals simp [hending, hfeed, hreturn]

end Place

/-- An error at a place of a line is shown by the line without its indentation and without white space at
its end, and by as many dashes before the caret as there are bytes of that line before the place. Only
where they are all ASCII, these are as many as there are characters. -/
theorem render_place (e : SyntaxError) (source file : String) (p : Place source e.position.offset) :
    render e source file =
        heading e.fault ++ "-> " ++ file ++ "\n" ++ String.ofList (p.picture (Text.byteLength p.shown)) ∧
      (p.picture (Text.byteLength p.shown) = p.picture p.shown.length ↔ ∀ c ∈ p.shown, c.toNat < 128) := by
  constructor
  · have hcolumns : Text.byteLength (p.indent ++ p.shown) - Text.byteLength p.indent =
        Text.byteLength p.shown := by
      rw [Text.byteLength_append]
      omega
    have hrows : rows ⟨Text.lineFeeds p.before + 1, p.indent ++ (p.shown ++ p.behind) ++ p.ending,
        Text.byteLength (p.indent ++ p.shown)⟩ = p.picture (Text.byteLength p.shown) := by
      simp only [rows, p.dropWhile_line, p.trimEnd_line, p.indentation_line, hcolumns]
      simp only [caretRow, Place.picture, Text.alignRight_singleton, List.append_assoc, List.cons_append,
        List.nil_append]
    rw [render, p.lineAt_eq]
    simp only [hrows]
  · rw [p.picture_inj, Text.byteLength_eq_length_iff]

/-- A dollar sign on the second line, which is indented and ends with a blank and a carriage return. -/
def indented : Place "def f():\n    x = $ \r\n    pass\n" 17 where
  before := "def f():\n".toList
  indent := "    ".toList
  shown := "x = ".toList
  behind := "$ ".toList
  ending := ['\r', '\n']
  rest := "    pass\n".toList
  text := by decide
  offset_eq := by decide
  begins := by simp [Text.WholeLines]
  indented := by simp [isIndentation]
  unindented := by simp [isIndentation]
  inside := by decide
  oneLine := by decide
  ended := by decide

/-- Below a line of ASCII the caret is below its character. -/
theorem render_indented :
    render ⟨.unrecognised "$", ⟨17, 2⟩⟩ "def f():\n    x = $ \r\n    pass\n" "bad.py" =
        "Error: UnrecognisedToken\n-> bad.py\n  |\n2 | x = $\n  | ----^\n" ∧
      indented.picture (Text.byteLength indented.shown) = indented.picture indented.shown.length := by
  obtain ⟨hrender, hcolumn⟩ :=
    render_place ⟨.unrecognised "$", ⟨17, 2⟩⟩ "def f():\n    x = $ \r\n    pass\n" "bad.py" indented
  have hascii : indented.shown.all (fun c => c.toNat < 128) = true := by decide
  refine ⟨hrender.trans (by decide +kernel), hcolumn.mpr fun c hc => ?_⟩
  exact of_decide_eq_true (List.all_eq_true.mp hascii c hc)

/-- A dollar sign after a letter of two bytes. -/
def accented : Place "é = $\n" 5 where
  before := []
  indent := []
  shown := "é = ".toList
  behind := ['$']
  ending := ['\n']
  rest := []
  text := by decide
  offset_eq := by decide
  begins := Text.wholeLines_nil
  indented := List.forall_mem_nil _
  unindented := by simp [isIndentation]
  inside := by decide
  oneLine := by decide
  ended := by decide

/-- Below a line with such a letter the caret is one column too far to the right. -/
theorem render_accented :
    accented.shown.length = 4 ∧
      render ⟨.unrecognised "$", ⟨5, 1⟩⟩ "é = $\n" "bad.py" =
        "Error: UnrecognisedToken\n-> bad.py\n  |\n1 | é = $\n  | -----^\n" ∧
      render ⟨.unrecognised "$", ⟨5, 1⟩⟩ "é = $\n" "bad.py" ≠
        heading (.unrecognised "$") ++ "-> bad.py\n" ++
          String.ofList (accented.picture accented.shown.length) := by
  decide +kernel

end Excerpt

end TypeWatch
