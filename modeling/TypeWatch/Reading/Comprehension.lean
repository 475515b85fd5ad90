import TypeWatch.Reading.Sequence

/-! The loops of comprehensions. -/
namespace TypeWatch.Reading
set_option autoImplicit false

def opensClause (c : Cursor) : Bool :=
  c.kind = .word .kwFor || (c.kind = .word .kwAsync && c.kindAt 1 = .word .kwFor)

def conditions {n : Nat} (sub : Below n) (c : Cursor) (h : c.size < n) : MayRead (List Expr) c :=
  match c.accept? (.word .kwIf) with
  | none => .ok (.here [] c)
  | some ⟨_, c1, h1⟩ => do
    let ⟨e, c2, h2⟩ ← (sub .conditional c1 (below_of_lt h1 h)).since h1
    let ⟨es, c3, h3⟩ ← (conditions sub c2 (below_of_lt h2 h)).since h2
    return .past (e :: es) c3 h3
termination_by c.size

/-- The word that makes a loop asynchronous, if it is there. -/
def asyncMark (c : Cursor) : Moved Bool c :=
  match c.accept? (.word .kwAsync) with
  | some ⟨_, c1, h1⟩ => .past true c1 h1
  | none => .here false c

def clause {n : Nat} (sub : Below n) (c : Cursor) (h : c.size < n) : Read Clause c := do
  let ⟨isAsync, c1, h1⟩ := asyncMark c
  let ⟨_, c2, h2⟩ ← (c1.expect (.word .kwFor)).from h1
  let ⟨target, c3, h3⟩ ← (exprList sub .comparison c2 (below_of_lt h2 h)).since h2
  let ⟨_, c4, h4⟩ ← (c3.expect (.word .kwIn)).since h3
  let ⟨iter, c5, h5⟩ ← (sub .conditional c4 (below_of_lt h4 h)).since h4
  let ⟨tests, c6, h6⟩ ← (conditions sub c5 (below_of_lt h5 h)).since h5
  return ⟨.mk target iter tests isAsync, c6, h6⟩

/-- All loops that begin at a place and after each other. -/
def clauses {n : Nat} (sub : Below n) (c : Cursor) (h : c.size < n) : MayRead (List Clause) c :=
  if opensClause c then do
    let ⟨x, c1, h1⟩ ← clause sub c h
    let ⟨xs, c2, h2⟩ ← (clauses sub c1 (below_of_lt h1 h)).since h1
    return .past (x :: xs) c2 h2
  else .ok (.here [] c)
termination_by c.size

end TypeWatch.Reading
