import TypeWatch.Text.Line

/-! Places in a source text. -/
namespace TypeWatch
set_option autoImplicit false

/-- A place: its offset in bytes and its line, counted from one. -/
structure Position where
  offset : Nat
  line : Nat
  deriving DecidableEq, Inhabited, Repr

namespace Position

def first : Position := ⟨0, 1⟩

/-- The place after some more text. -/
def after (p : Position) (cs : List Char) : Position :=
  ⟨p.offset + Text.byteLength cs, p.line + Text.lineFeeds cs⟩

@[simp] theorem after_nil (p : Position) : p.after [] = p := rfl

@[simp] theorem after_append (p : Position) (a b : List Char) :
    p.after (a ++ b) = (p.after a).after b := by
  simp [after, Nat.add_assoc]

end Position

structure Span where
  start : Position
  stop : Position
  deriving DecidableEq, Inhabited, Repr

end TypeWatch
