/-! Characters and texts: sets of characters, white space, and texts filled up to a width. -/
namespace TypeWatch.Text
set_option autoImplicit false

/-! ## Sets of characters -/

/-- A set of characters, in the form in which character properties are tabulated: the code points from
the first to the second number of some pair. -/
abbrev CodeRanges := List (Nat × Nat)

namespace CodeRanges

/-- Whether the character lies in one of the ranges. -/
def holds (ranges : CodeRanges) (c : Char) : Bool :=
  ranges.any fun r => decide (r.1 ≤ c.toNat) && decide (c.toNat ≤ r.2)

theorem holds_iff (ranges : CodeRanges) (c : Char) :
    ranges.holds c = true ↔ ∃ r ∈ ranges, r.1 ≤ c.toNat ∧ c.toNat ≤ r.2 := by
  simp [holds]

end CodeRanges

/-! ## White space -/

/-- The characters with the Unicode property `White_Space`. -/
def blanks : CodeRanges := [
  (0x9, 0xD), (0x20, 0x20), (0x85, 0x85), (0xA0, 0xA0), (0x1680, 0x1680), (0x2000, 0x200A),
  (0x2028, 0x2029), (0x202F, 0x202F), (0x205F, 0x205F), (0x3000, 0x3000)]

def isBlank (c : Char) : Bool := blanks.holds c

def trimStart (cs : List Char) : List Char := cs.dropWhile isBlank

def trimEnd (cs : List Char) : List Char := (cs.reverse.dropWhile isBlank).reverse

def trim (cs : List Char) : List Char := trimEnd (trimStart cs)

/-- The text without the white space at its two ends. -/
def trimmed (text : String) : String := String.ofList (trim text.toList)

/-! ## Widths -/

/-- The text, with fill characters before it up to a width. -/
def alignRight (fill : Char) (width : Nat) (cs : List Char) : List Char :=
  List.replicate (width - cs.length) fill ++ cs

/-- The text, with fill characters after it up to a width. -/
def alignLeft (fill : Char) (width : Nat) (cs : List Char) : List Char :=
  cs ++ List.replicate (width - cs.length) fill

end TypeWatch.Text
