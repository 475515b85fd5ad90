import TypeWatch.Reading.Sequence
import TypeWatch.Syntax.Stmt

/-! Import statements. -/
namespace TypeWatch.Reading
set_option autoImplicit false

/-! ## Names -/

def dottedRest (text : String) (c : Cursor) : MayRead String c :=
  match c.accept? (.op .dot) with
  | none => .ok (.here text c)
  | some ⟨_, c1, h1⟩ => do
    let ⟨name, c2, h2⟩ ← c1.expectName.since h1
    let ⟨whole, c3, h3⟩ ← (dottedRest (text ++ "." ++ name) c2).since h2
    return .past whole c3 h3
termination_by c.size

def dottedName (c : Cursor) : Read String c := do
  let ⟨name, c1, h1⟩ ← c.expectName
  (dottedRest name c1).since h1

/-- The name that something is given, if there is one. -/
def givenName (c : Cursor) : MayRead (Option String) c :=
  match c.accept? (.word .kwAs) with
  | none => .ok (.here none c)
  | some ⟨_, c1, h1⟩ => do
    let ⟨name, c2, h2⟩ ← c1.expectName.since h1
    return .past (some name) c2 h2

def importedModule {n : Nat} : ItemBelow ImportedName n :=
  fun c _ => do
    let ⟨name, c1, h1⟩ ← dottedName c
    let ⟨given, c2, h2⟩ ← (givenName c1).since h1
    return ⟨⟨name, given⟩, c2, h2⟩

def importedName {n : Nat} : ItemBelow ImportedName n :=
  fun c _ => do
    let ⟨name, c1, h1⟩ ← c.expectName
    let ⟨given, c2, h2⟩ ← (givenName c1).since h1
    return ⟨⟨name, given⟩, c2, h2⟩

/-! ## Statements -/

/-- The dots before the name of a module that is looked for near the importing one. -/
def leadingDots (text : String) (c : Cursor) : Moved String c :=
  match c.accept? (.op .dot) with
  | some ⟨_, c1, h1⟩ =>
    let ⟨whole, c2, h2⟩ := (leadingDots (text ++ ".") c1).since h1
    .past whole c2 h2
  | none =>
  match c.accept? (.op .ellipsis) with
  | some ⟨_, c1, h1⟩ =>
    let ⟨whole, c2, h2⟩ := (leadingDots (text ++ "...") c1).since h1
    .past whole c2 h2
  | none => .here text c
termination_by c.size

/-- The module that names are taken from. -/
def origin (c : Cursor) : MayRead String c := do
  let ⟨dots, c1, h1⟩ := leadingDots "" c
  if c1.kind = .name then
    let ⟨name, c2, h2⟩ ← (dottedName c1).from h1
    return .past (dots ++ name) c2 h2
  else if dots.isEmpty then c1.unexpected
  else return ⟨dots, c1, h1⟩

/-- The names that are taken from a module. In parentheses, a comma may stand after the last. -/
def takenNames (c : Cursor) : Read (List ImportedName) c :=
  match c.accept? (.op .star) with
  | some ⟨_, c1, h1⟩ => .ok ⟨[⟨"*", none⟩], c1, h1⟩
  | none =>
  match c.accept? (.op .openParen) with
  | none => someItems importedName (fun _ => false) c c.size_below
  | some ⟨_, c1, h1⟩ => do
    let ⟨names, c2, h2⟩ ← (someItems importedName (· = .op .closeParen) c1 c1.size_below).since h1
    let ⟨_, c3, h3⟩ ← (c2.expect (.op .closeParen)).since h2
    return ⟨names, c3, h3⟩

/-- An import of modules after its first word. -/
def importModules (start : Position) (c : Cursor) : Read Stmt c := do
  let ⟨names, c1, h1⟩ ← someItems importedModule (fun _ => false) c c.size_below
  return ⟨.imported (c1.spanFrom start) none names, c1, h1⟩

/-- An import of names from a module after its first word. -/
def importNames (start : Position) (c : Cursor) : Read Stmt c := do
  let ⟨module, c1, h1⟩ ← origin c
  let ⟨_, c2, h2⟩ ← (c1.expect (.word .kwImport)).from h1
  let ⟨names, c3, h3⟩ ← (takenNames c2).since h2
  return ⟨.imported (c3.spanFrom start) (some module) names, c3, h3⟩

end TypeWatch.Reading
