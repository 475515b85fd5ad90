import TypeWatch.Proofs.Reading.OneLine
import TypeWatch.Proofs.Reading.Single

/-! # Entries of parameter lists

What stands between two commas of a parameter list, as it is written, and that it is read as such
(`Slot.finds`). The annotation of a parameter ends before its default, and both end before the comma. -/
namespace TypeWatch.Reading
set_option autoImplicit false

/-! ## As written -/

/-- An expression after a sign, or nothing. -/
def marked (mark : Operator) : Option Listed → List Word
  | none => []
  | some v => opWord mark :: v.words

def valueOf (written : Option Listed) : Option Expr := written.map fun v => v.value

/-- A name with an annotation, if it has one. -/
structure Hinted where
  name : String
  hint : Option Listed

/-- A parameter without stars, with a default, if it has one. -/
structure Plain extends Hinted where
  standard : Option Listed

/-- What is written between two commas. -/
inductive Slot where
  | slash
  | star
  | plain (p : Plain)
  | variadic (p : Hinted)
  | variadicKeywords (p : Hinted)

namespace Slot

def hint : Slot → Option Listed
  | slash | star => none
  | plain p => p.hint
  | variadic p | variadicKeywords p => p.hint

def words : Slot → List Word
  | slash => [opWord .slash]
  | star => [opWord .star]
  | plain p => (.name, p.name) :: (marked .colon p.hint ++ marked .assign p.standard)
  | variadic p => opWord .star :: (.name, p.name) :: marked .colon p.hint
  | variadicKeywords p => opWord .doubleStar :: (.name, p.name) :: marked .colon p.hint

/-- What is read of it, places aside. -/
def item : Slot → ParameterItem
  | slash => .slash
  | star => .star
  | plain p => .plain default p.name (valueOf p.hint) (valueOf p.standard)
  | variadic p => .variadic default p.name (valueOf p.hint)
  | variadicKeywords p => .variadicKeywords default p.name (valueOf p.hint)

/-- Whether it may stand in a list in which parameters have annotations, or in one in which they have none. -/
def Fits (annotated : Bool) (s : Slot) : Prop := annotated = true ∨ s.hint = none

end Slot

/-! ## Entries that are the same but for places -/

/-- Entries that differ in places alone. -/
inductive SameItem : ParameterItem → ParameterItem → Prop
  | slash : SameItem .slash .slash
  | star : SameItem .star .star
  | plain {s s' : Span} {id : String} {hint hint' standard standard' : Option Expr} :
      Expr.bareOption hint = Expr.bareOption hint' → Expr.bareOption standard = Expr.bareOption standard' →
      SameItem (.plain s id hint standard) (.plain s' id hint' standard')
  | variadic {s s' : Span} {id : String} {hint hint' : Option Expr} : Expr.bareOption hint = Expr.bareOption hint' →
      SameItem (.variadic s id hint) (.variadic s' id hint')
  | variadicKeywords {s s' : Span} {id : String} {hint hint' : Option Expr} :
      Expr.bareOption hint = Expr.bareOption hint' →
      SameItem (.variadicKeywords s id hint) (.variadicKeywords s' id hint')

theorem bareParameters_positionalOnly (ps : List Parameter) :
    Expr.bareParameters (ps.map positionalOnly) = (Expr.bareParameters ps).map positionalOnly := by
  induction ps with
  | nil => rfl
  | cons p ps ih =>
    obtain ⟨s, kind, id, hint, standard⟩ := p
    cases kind <;> simp only [List.map_cons, positionalOnly, Expr.bareParameters, ih]

/-- The parameters of a list do not depend on the places of its entries, places aside. -/
theorem bareParameters_of_sameItems {items items' : List ParameterItem} (h : List.Forall₂ SameItem items items')
    (kind : ParameterKind) {before before' : List Parameter}
    (hbefore : Expr.bareParameters before = Expr.bareParameters before') :
    Expr.bareParameters (parametersOf kind before items) = Expr.bareParameters (parametersOf kind before' items') := by
  induction h generalizing kind before before' with
  | nil => exact hbefore
  | cons hitem _ ih =>
    cases hitem with
    | slash =>
      apply ih
      rw [bareParameters_positionalOnly, bareParameters_positionalOnly, hbefore]
    | star => exact ih _ hbefore
    | plain hhint hstandard =>
      apply ih
      simp only [bareParameters_append, Expr.bareParameters, hbefore, hhint, hstandard]
    | variadic hhint | variadicKeywords hhint =>
      apply ih
      simp only [bareParameters_append, Expr.bareParameters, hbefore, hhint]

/-! ## Reading -/

/-- A word before which an entry ends: no sign with which it would go on. -/
structure Ends (annotated : Bool) (kind : TokenKind) : Prop where
  stops : isStop kind = true
  noStandard : kind ≠ .op .assign
  noHint : annotated = true → kind ≠ .op .colon

section Reading

variable {n : Nat} {annotated : Bool} {c : Cursor} {next : Word} {more : List Word}

theorem exprAfter_finds {mark : Operator} (written : Option Listed) (h : c.size < n) (hstops : isStop next.1 = true)
    (hmark : next.1 ≠ .op mark) (hc : c.words = marked mark written ++ next :: more) :
    (exprAfter (exprBelow n) (.op mark) .named c h).Finds fun e d =>
      Expr.bareOption e = Expr.bareOption (valueOf written) ∧ d.words = next :: more := by
  cases written with
  | none =>
    rw [exprAfter, Cursor.accept?_eq_none hc hmark]
    exact finds_ok ⟨rfl, hc⟩
  | some v =>
    obtain ⟨t, c1, h1, haccept, -, hc1⟩ := Cursor.accept?_of_words hc
    have hread := v.whole c1 next more (v.borders hstops) hc1
    rw [exprAfter, haccept]
    apply Read.finds_bind (Read.finds_since hread h1)
    rintro e d _ ⟨he, hd⟩
    exact finds_ok ⟨congrArg some he, hd⟩

theorem hintAfter_finds (written : Option Listed) (h : c.size < n) (hfits : annotated = true ∨ written = none)
    (hstops : isStop next.1 = true) (hcolon : annotated = true → next.1 ≠ .op .colon)
    (hc : c.words = marked .colon written ++ next :: more) :
    (hintAfter (exprBelow n) annotated c h).Finds fun e d =>
      Expr.bareOption e = Expr.bareOption (valueOf written) ∧ d.words = next :: more := by
  cases annotated with
  | true => exact exprAfter_finds written h hstops (hcolon rfl) hc
  | false =>
    obtain rfl : written = none := hfits.resolve_left Bool.false_ne_true
    exact finds_ok ⟨rfl, hc⟩

/-- What follows an annotation: the sign of a default, or what follows the entry. -/
theorem standard_follows (standard : Option Listed) (more : List Word) (hends : Ends annotated next.1) :
    ∃ w ws, marked .assign standard ++ next :: more = w :: ws ∧ isStop w.1 = true ∧
      (annotated = true → w.1 ≠ .op .colon) := by
  cases standard with
  | none => exact ⟨next, more, rfl, hends.stops, hends.noHint⟩
  | some v => exact ⟨opWord .assign, v.words ++ next :: more, rfl, rfl, fun _ => by decide⟩

theorem Plain.finds (p : Plain) (hfits : annotated = true ∨ p.hint = none) (hends : Ends annotated next.1)
    (h : c.size < n) (hc : c.words = Slot.words (.plain p) ++ next :: more) :
    (parameterItem (exprBelow n) annotated c h).Finds fun x d =>
      SameItem x (Slot.item (.plain p)) ∧ d.words = next :: more := by
  obtain ⟨w, ws, hw, hstops, hcolon⟩ := standard_follows p.standard more hends
  rw [Slot.words, List.cons_append, List.append_assoc, hw] at hc
  have hno (o : Operator) : c.accept? (.op o) = none := Cursor.accept?_eq_none hc (by rintro ⟨⟩)
  rw [parameterItem, hno]
  simp only [hno]
  apply Read.finds_bind (Cursor.expectName_finds hc)
  rintro _ c1 h1 ⟨rfl, hc1⟩
  apply Read.finds_bind (MayRead.finds_since (hintAfter_finds p.hint (below_of_lt h1 h) hfits hstops hcolon hc1) h1)
  rintro hint c2 h2 ⟨hhint, hc2⟩
  have hstandard := exprAfter_finds p.standard (below_of_lt h2 h) hends.stops hends.noStandard (hc2.trans hw.symm)
  apply Read.finds_bind (MayRead.finds_since hstandard h2)
  rintro standard d _ ⟨hstandard, hd⟩
  exact finds_ok ⟨.plain hhint hstandard, hd⟩

theorem Hinted.finds_star (p : Hinted) (hfits : annotated = true ∨ p.hint = none) (hends : Ends annotated next.1)
    (h : c.size < n) (hc : c.words = Slot.words (.variadic p) ++ next :: more) :
    (parameterItem (exprBelow n) annotated c h).Finds fun x d =>
      SameItem x (Slot.item (.variadic p)) ∧ d.words = next :: more := by
  obtain ⟨t, c1, h1, hstar, -, hc1⟩ := Cursor.accept?_of_words hc
  obtain ⟨u, c2, h2, hname, hu, hc2⟩ := Cursor.accept?_of_words hc1
  have hsince : (c1.accept? .name).since h1 = some ⟨u, c2, Nat.lt_trans h2 h1⟩ := by
    rw [hname]
    rfl
  rw [parameterItem, Cursor.accept?_eq_none (k := .op .slash) hc (by decide)]
  simp only [hstar, hsince]
  have hhint := hintAfter_finds p.hint (below_of_lt (Nat.lt_trans h2 h1) h) hfits hends.stops hends.noHint hc2
  apply Read.finds_bind (MayRead.finds_since hhint _)
  rintro hint d _ ⟨hhint, hd⟩
  rw [show u.text = p.name from congrArg Prod.snd hu]
  exact finds_ok ⟨.variadic hhint, hd⟩

theorem Hinted.finds_stars (p : Hinted) (hfits : annotated = true ∨ p.hint = none)
    (hends : Ends annotated next.1) (h : c.size < n)
    (hc : c.words = Slot.words (.variadicKeywords p) ++ next :: more) :
    (parameterItem (exprBelow n) annotated c h).Finds fun x d =>
      SameItem x (Slot.item (.variadicKeywords p)) ∧ d.words = next :: more := by
  obtain ⟨t, c1, h1, hstars, -, hc1⟩ := Cursor.accept?_of_words hc
  rw [parameterItem, Cursor.accept?_eq_none (k := .op .slash) hc (by decide)]
  simp only [Cursor.accept?_eq_none (k := .op .star) hc (by decide), hstars]
  apply Read.finds_bind (Read.finds_since (Cursor.expectName_finds hc1) h1)
  rintro _ c2 h2 ⟨rfl, hc2⟩
  have hhint := hintAfter_finds p.hint (below_of_lt h2 h) hfits hends.stops hends.noHint hc2
  apply Read.finds_bind (MayRead.finds_since hhint h2)
  rintro hint d _ ⟨hhint, hd⟩
  exact finds_ok ⟨.variadicKeywords hhint, hd⟩

/-- An entry is read as it is written. -/
theorem Slot.finds (s : Slot) (hfits : s.Fits annotated) (hends : Ends annotated next.1) (h : c.size < n)
    (hc : c.words = s.words ++ next :: more) : (parameterItem (exprBelow n) annotated c h).Finds fun x d =>
      SameItem x s.item ∧ d.words = next :: more := by
  cases s with
  | slash =>
    obtain ⟨t, c1, h1, hslash, -, hc1⟩ := Cursor.accept?_of_words hc
    rw [parameterItem, hslash]
    exact finds_ok ⟨.slash, hc1⟩
  | star =>
    obtain ⟨t, c1, h1, hstar, -, hc1⟩ := Cursor.accept?_of_words hc
    have hname : next.1 ≠ .name := of_isStop (p := (· ≠ .name)) (by decide) hends.stops
    have hsince : (c1.accept? .name).since h1 = none := since_eq_none (Cursor.accept?_eq_none hc1 hname) h1
    rw [parameterItem, Cursor.accept?_eq_none (k := .op .slash) hc (by decide)]
    simp only [hstar, hsince]
    exact finds_ok ⟨.star, hc1⟩
  | plain p => exact p.finds hfits hends h hc
  | variadic p => exact p.finds_star hfits hends h hc
  | variadicKeywords p => exact p.finds_stars hfits hends h hc

theorem ends_comma (annotated : Bool) : Ends annotated (.op .comma) := ⟨rfl, by decide, fun _ => by decide⟩

theorem Slot.itemOn {closing : TokenKind} (hclosing : Ends annotated closing) (s : Slot) (hfits : s.Fits annotated)
    (n : Nat) : ItemOn (parameterItem (exprBelow n) annotated) (· = closing) SameItem s.words s.item where
  opens := by
    have hno {o : Operator} (ho : isStop (.op o) = false) : decide (TokenKind.op o = closing) = false := by
      apply decide_eq_false
      rintro rfl
      cases ho.symm.trans hclosing.stops
    have hname : decide (TokenKind.name = closing) = false := by
      apply decide_eq_false
      rintro rfl
      cases hclosing.stops
    cases s with
    | slash => exact ⟨_, _, rfl, hno rfl⟩
    | star => exact ⟨_, _, rfl, hno rfl⟩
    | plain => exact ⟨_, _, rfl, hname⟩
    | variadic => exact ⟨_, _, rfl, hno rfl⟩
    | variadicKeywords => exact ⟨_, _, rfl, hno rfl⟩
  reads c h next more hc hnext := by
    apply s.finds hfits ?_ h hc
    rcases hnext with hcomma | hend
    · rw [hcomma]
      exact ends_comma annotated
    · rwa [of_decide_eq_true hend]

end Reading

end TypeWatch.Reading
