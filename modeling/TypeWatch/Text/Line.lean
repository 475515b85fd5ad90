/-! Lines of a text. A line ends with a line feed, which belongs to it; the last line may lack it, and
no line is empty. Offsets count bytes of the UTF-8 form. -/
namespace TypeWatch.Text
set_option autoImplicit false

/-! ## Bytes -/

/-- The number of bytes of the UTF-8 form. -/
def byteLength : List Char → Nat
  | [] => 0
  | c :: cs => c.utf8Size + byteLength cs

@[simp] theorem byteLength_nil : byteLength [] = 0 := rfl

@[simp] theorem byteLength_cons (c : Char) (cs : List Char) :
    byteLength (c :: cs) = c.utf8Size + byteLength cs := rfl

@[simp] theorem byteLength_append (a b : List Char) :
    byteLength (a ++ b) = byteLength a + byteLength b := by
  induction a with
  | nil => simp
  | cons c cs ih => simp [ih, Nat.add_assoc]

theorem size_utf8Encode (cs : List Char) : cs.utf8Encode.size = byteLength cs := by
  induction cs with
  | nil => rfl
  | cons c cs ih =>
    have hc : [c].utf8Encode.size = c.utf8Size := by simp [List.utf8Encode]
    rw [List.utf8Encode_cons, ByteArray.size_append, hc, ih, byteLength_cons]

/-- The offset just past a text is the number of its bytes. -/
@[simp] theorem byteLength_toList (text : String) : byteLength text.toList = text.utf8ByteSize := by
  rw [← size_utf8Encode, ← String.toByteArray_ofList, String.ofList_toList]
  rfl

def lineFeeds (cs : List Char) : Nat := cs.count '\n'

@[simp] theorem lineFeeds_nil : lineFeeds [] = 0 := rfl

@[simp] theorem lineFeeds_append (a b : List Char) :
    lineFeeds (a ++ b) = lineFeeds a + lineFeeds b := by simp [lineFeeds]

/-! ## Lines -/

/-- The lines of a text, each with its line feed. -/
def linesWithEnds : List Char → List (List Char)
  | [] => []
  | c :: cs =>
    if c = '\n' then [c] :: linesWithEnds cs
    else match linesWithEnds cs with
      | [] => [[c]]
      | l :: ls => (c :: l) :: ls

theorem linesWithEnds_flatten (cs : List Char) : (linesWithEnds cs).flatten = cs := by
  induction cs with
  | nil => rfl
  | cons c cs ih =>
    unfold linesWithEnds
    split
    · simp [ih]
    · cases h : linesWithEnds cs with
      | nil => rw [h] at ih; simp_all
      | cons l ls => rw [h] at ih; simp_all

/-- A line without its end: a line feed, or a carriage return before a line feed. -/
def withoutEnd (line : List Char) : List Char :=
  match line.reverse with
  | '\n' :: '\r' :: rest => rest.reverse
  | '\n' :: rest => rest.reverse
  | _ => line

def lineCount (cs : List Char) : Nat := (linesWithEnds cs).length

/-- A place in a text: the number of the line, counted from one, the line, and the offset of the
place within it. -/
structure LineAt where
  number : Nat
  line : List Char
  column : Nat

/-- The line that holds the offset, among lines that begin at the offset `start` and of which
`number` is the first one's number. -/
def findLine (offset : Nat) : Nat → Nat → List (List Char) → Option LineAt
  | _, _, [] => none
  | start, number, l :: ls =>
    if offset < start + byteLength l then some ⟨number, l, offset - start⟩
    else findLine offset (start + byteLength l) (number + 1) ls

/-- The line that holds an offset. The offset just past a text counts to the end of its last line,
and past that there is no line. -/
def lineAt (text : String) (offset : Nat) : Option LineAt :=
  let cs := text.toList
  let ls := linesWithEnds cs
  if byteLength cs < offset then none
  else match findLine offset 0 1 ls with
    | some found => some found
    | none =>
      let last := (ls.getLast?.map withoutEnd).getD []
      some ⟨max 1 ls.length, last, byteLength last⟩

end TypeWatch.Text
