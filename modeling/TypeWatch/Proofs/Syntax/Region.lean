import TypeWatch.Proofs.Source.Place
import TypeWatch.Syntax.Stmt

/-! # Regions and the statements that belong to them

A statement belongs to the innermost function around it, however many suites of classes, branches, loops
and the like are between the two, or else to the module (`Stmt.ownAll`). In a region that fits, functions
stand in their order on lines of their own (`Region.Fits`), so that two functions with a common line are
nested (`nested_of_common`). -/
namespace TypeWatch
set_option autoImplicit false

/-! ## Statements of a region -/

/-- A function, or a whole module: a range of lines with the names and statements that are declared on
them. -/
structure Region where
  first : Nat
  last : Nat
  parameters : List Parameter
  body : List Stmt

namespace Stmt

/-- The function that a statement defines, from the line of its first word to the last one of its body. -/
def function? : Stmt → Option Region
  | functionDef span _ _ parameters _ body _ => some ⟨span.start.line, span.stop.line, parameters, body⟩
  | _ => none

mutual

/-- The statements in the suites of a statement that belong to the function around it. -/
def inner : Stmt → List Stmt
  | block _ body | classDef _ _ _ _ body | withBlock _ _ body _ => ownAll body
  | branch _ _ body orelse | whileLoop _ _ body orelse | forLoop _ _ _ body orelse _ =>
    ownAll body ++ ownAll orelse
  | tryBlock _ body handlers orelse finalbody =>
    ownAll body ++ ownHandlers handlers ++ ownAll orelse ++ ownAll finalbody
  | expression _ _ | functionDef _ _ _ _ _ _ _ | assign _ _ _ | annotated _ _ _ _ | augmented _ _ _ _
  | returned _ _ | raised _ _ _ | outer _ _ _ | deleted _ _ | asserted _ _ _ | imported _ _ _
  | word _ _ => []

/-- The statements of a suite and of the suites in it that belong to the function around them. -/
def ownAll : List Stmt → List Stmt
  | [] => []
  | s :: ss => s :: inner s ++ ownAll ss

def ownHandlers : List Handler → List Stmt
  | [] => []
  | .mk _ _ body :: handlers => ownAll body ++ ownHandlers handlers

end

theorem ownAll_append (a b : List Stmt) : ownAll (a ++ b) = ownAll a ++ ownAll b := by
  induction a with
  | nil => rfl
  | cons s a ih => simp [ownAll, ih]

/-- The body of a function belongs to that function. -/
theorem inner_of_function {s : Stmt} {f : Region} (h : s.function? = some f) : s.inner = [] := by
  cases s with
  | functionDef => rfl
  | _ => exact absurd h nofun

/-- A function begins on the line of its definition. -/
theorem first_of_function {s : Stmt} {f : Region} (h : s.function? = some f) : s.span.start.line = f.first := by
  cases s with
  | functionDef =>
    obtain rfl := Option.some.inj h
    rfl
  | _ => exact absurd h nofun

/-- Whether a statement has no suites. -/
def IsSimple (s : Stmt) : Prop := s.function? = none ∧ s.inner = []

theorem ownAll_of_simple {ss : List Stmt} (h : ∀ s ∈ ss, s.IsSimple) : ownAll ss = ss := by
  induction ss with
  | nil => rfl
  | cons s ss ih =>
    rw [ownAll, (h s List.mem_cons_self).2, ih fun t ht => h t (List.mem_cons_of_mem s ht)]
    rfl

end Stmt

namespace Region

def own (r : Region) : List Stmt := Stmt.ownAll r.body

/-- Whether a line is one of those of a region. -/
def Covers (r : Region) (line : Nat) : Prop := r.first ≤ line ∧ line ≤ r.last

instance (r : Region) (line : Nat) : Decidable (r.Covers line) :=
  inferInstanceAs (Decidable (r.first ≤ line ∧ line ≤ r.last))

end Region

/-- The region that a module is whose source has so many lines. -/
def Module.region (m : Module) (lines : Nat) : Region := ⟨1, lines, [], m.body⟩

/-! ## Order -/

/-- Statements one after the other. What follows a function begins on a line after it. -/
structure InOrder (own : List Stmt) : Prop where
  starts : own.Pairwise fun a b => a.span.start < b.span.start
  apart : own.Pairwise fun a b => ∀ f, a.function? = some f → f.last < b.span.start.line

namespace Region

/-- The statements of a region stand on its lines, after its parameters. -/
structure Fits (r : Region) : Prop where
  inOrder : InOrder r.own
  starts : (r.parameters.map (fun p => p.span.start) ++ r.own.map (fun s => s.span.start)).Pairwise (· < ·)
  covers : ∀ s ∈ r.own, r.Covers s.span.start.line
  inside : ∀ s ∈ r.own, ∀ f, s.function? = some f → f.last ≤ r.last

/-- A function has a line, and the functions in it begin on lines after its first one. -/
structure FitsFunction (f : Region) : Prop extends Fits f where
  first_le : f.first ≤ f.last
  deeper : ∀ s ∈ f.own, ∀ g, s.function? = some g → f.first < g.first

end Region

/-- Every function among some statements, or within such a function, is a fitting one. -/
inductive Orderly : List Stmt → Prop
  | mk {own : List Stmt} : (∀ s ∈ own, ∀ f, s.function? = some f → f.FitsFunction) →
      (∀ s ∈ own, ∀ f, s.function? = some f → Orderly f.own) → Orderly own

theorem Orderly.fits {own : List Stmt} (h : Orderly own) {s : Stmt} (hs : s ∈ own) {f : Region}
    (hf : s.function? = some f) : f.FitsFunction ∧ Orderly f.own := by
  cases h with
  | mk hfits horderly => exact ⟨hfits s hs f hf, horderly s hs f hf⟩

theorem orderly_append {a b : List Stmt} (ha : Orderly a) (hb : Orderly b) : Orderly (a ++ b) := by
  have hall : ∀ s ∈ a ++ b, ∀ f, s.function? = some f → f.FitsFunction ∧ Orderly f.own := by
    intro s hs f hf
    rcases List.mem_append.mp hs with hs | hs
    · exact ha.fits hs hf
    · exact hb.fits hs hf
  exact .mk (fun s hs f hf => (hall s hs f hf).1) fun s hs f hf => (hall s hs f hf).2

/-! ## Nesting -/

/-- The functions among some statements, and those within them. -/
inductive Inside : List Stmt → Region → Prop
  | here {own : List Stmt} {s : Stmt} {f : Region} : s ∈ own → s.function? = some f → Inside own f
  | within {own : List Stmt} {s : Stmt} {f g : Region} : s ∈ own → s.function? = some f →
      Inside f.own g → Inside own g

/-- A function among orderly statements fits, however deeply it is nested. -/
theorem Orderly.fits_inside {own : List Stmt} (h : Orderly own) {f : Region} (hf : Inside own f) :
    f.FitsFunction ∧ Orderly f.own := by
  induction hf with
  | here hs hf => exact h.fits hs hf
  | within hs hf _ ih => exact ih (h.fits hs hf).2

/-- A function among some statements or within them has its lines in those of a function among them. -/
theorem Orderly.outermost {own : List Stmt} (h : Orderly own) {g : Region} (hg : Inside own g) :
    ∃ s ∈ own, ∃ f, s.function? = some f ∧ (g = f ∨ Inside f.own g) ∧ f.first ≤ g.first ∧
      g.last ≤ f.last := by
  induction hg with
  | here hs hf => exact ⟨_, hs, _, hf, Or.inl rfl, Nat.le_refl _, Nat.le_refl _⟩
  | @within own s f g hs hf hg ih =>
    obtain ⟨hfits, horderly⟩ := h.fits hs hf
    obtain ⟨t, ht, m, hm, _, hfirst, hlast⟩ := ih horderly
    have hfirst' := hfits.deeper t ht m hm
    have hlast' := hfits.inside t ht m hm
    exact ⟨s, hs, f, hf, Or.inr hg, Nat.le_trans (Nat.le_of_lt hfirst') hfirst, Nat.le_trans hlast hlast'⟩

/-- Functions with a common line among statements in their order are one function. -/
theorem InOrder.eq_of_common {own : List Stmt} (h : InOrder own) {s t : Stmt} (hs : s ∈ own) (ht : t ∈ own)
    {f g : Region} (hf : s.function? = some f) (hg : t.function? = some g) {line : Nat}
    (hfl : f.Covers line) (hgl : g.Covers line) : s = t := by
  have hapart {a b : Stmt} {k m : Region} (hk : a.function? = some k) (hm : b.function? = some m)
      (hkl : k.Covers line) (hml : m.Covers line)
      (hab : ∀ f, a.function? = some f → f.last < b.span.start.line) : False := by
    have hlt := hab k hk
    rw [Stmt.first_of_function hm] at hlt
    have hfirst : k.last < m.first := hlt
    obtain ⟨_, hk2⟩ := hkl
    obtain ⟨hm1, _⟩ := hml
    omega
  have hpair := h.apart
  induction hpair with
  | nil => exact absurd hs List.not_mem_nil
  | cons hall _ ih =>
    rcases List.mem_cons.mp hs with rfl | hs' <;> rcases List.mem_cons.mp ht with rfl | ht'
    · rfl
    · exact (hapart hf hg hfl hgl (hall t ht')).elim
    · exact (hapart hg hf hgl hfl (hall s hs')).elim
    · exact ih ⟨h.starts.of_cons, h.apart.of_cons⟩ hs' ht'

/-- Functions with a common line are one function or nested. -/
theorem nested_of_common {own : List Stmt} (ho : Orderly own) (h : InOrder own) {f g : Region}
    (hf : Inside own f) (hg : Inside own g) {line : Nat} (hfl : f.Covers line) (hgl : g.Covers line) :
    f = g ∨ Inside f.own g ∨ Inside g.own f := by
  induction ho with
  | @mk own hfits horderly ih =>
    obtain ⟨s, hs, m, hm, hfm, hfirst, hlast⟩ := (Orderly.mk hfits horderly).outermost hf
    obtain ⟨t, ht, k, hk, hgk, hfirst', hlast'⟩ := (Orderly.mk hfits horderly).outermost hg
    -- both are in the outermost function that has the line
    have hml : m.Covers line := ⟨Nat.le_trans hfirst hfl.1, Nat.le_trans hfl.2 hlast⟩
    have hkl : k.Covers line := ⟨Nat.le_trans hfirst' hgl.1, Nat.le_trans hgl.2 hlast'⟩
    obtain rfl := h.eq_of_common hs ht hm hk hml hkl
    obtain rfl := Option.some.inj (hm.symm.trans hk)
    rcases hfm with rfl | hfm <;> rcases hgk with rfl | hgk
    · exact Or.inl rfl
    · exact Or.inr (Or.inl hgk)
    · exact Or.inr (Or.inr hfm)
    · exact ih s hs m hm (hfits s hs m hm).inOrder hfm hgk

/-! ## The innermost region -/

/-- The region around a line that has no function around the line in it: a function, or else the region
of the whole. -/
structure Region.Innermost (root : Region) (line : Nat) (r : Region) : Prop where
  belongs : r = root ∨ Inside root.own r
  covers : r.Covers line
  bare : ∀ f, Inside r.own f → ¬ f.Covers line

theorem Region.Innermost.unique {root r r' : Region} {line : Nat} (ho : Orderly root.own)
    (h : InOrder root.own) (hr : root.Innermost line r) (hr' : root.Innermost line r') : r = r' := by
  rcases hr.belongs with rfl | hin
  · rcases hr'.belongs with rfl | hin'
    · rfl
    · exact absurd hr'.covers (hr.bare r' hin')
  · rcases hr'.belongs with rfl | hin'
    · exact absurd hr.covers (hr'.bare r hin)
    · rcases nested_of_common ho h hin hin' hr.covers hr'.covers with heq | hnest | hnest
      · exact heq
      · exact absurd hr'.covers (hr.bare r' hnest)
      · exact absurd hr.covers (hr'.bare r hnest)

end TypeWatch
