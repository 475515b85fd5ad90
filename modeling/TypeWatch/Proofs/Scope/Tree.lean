import Mathlib.Data.List.Forall2
import TypeWatch.Proofs.Reading.Suite
import TypeWatch.Proofs.Scope.Growth

/-! # The tree of scopes

The scopes within the one of a module are those of the functions in it, nested and ordered alike
(`Scope.Mirrors`). Each lies in the one around it, on lines that its siblings do not have
(`Scope.WellFormed`). -/
namespace TypeWatch
set_option autoImplicit false

/-! ## Trees -/

namespace Scope

inductive Has : Scope → Scope → Prop
  | root {s : Scope} : Has s s
  | child {s c d : Scope} : c ∈ s.children → Has c d → Has s d

/-- A scope and a region with the same lines, and with the same of the functions in the region, one by
one. -/
inductive Mirrors : Scope → Region → Prop
  | mk {s : Scope} {r : Region} : s.first = r.first → s.last = r.last →
      List.Forall₂ Mirrors s.children r.functions → Mirrors s r

/-- The records and the children of a scope lie in its lines, the children one after the other. -/
structure WellFormed (s : Scope) : Prop where
  records : ∀ r ∈ s.records, s.first ≤ r.first ∧ r.first ≤ r.last ∧ r.last = s.last
  contained : ∀ c ∈ s.children, s.contains c = true ∧ c.first ≤ c.last
  apart : s.children.Pairwise fun a b => a.last < b.first

end Scope

/-! ## Scopes of regions -/

namespace Region

theorem mem_functions {r f : Region} : f ∈ r.functions ↔ ∃ s ∈ r.own, s.function? = some f :=
  List.mem_filterMap

/-- The functions of a region stand on lines of their own. -/
theorem Fits.functions_apart {r : Region} (h : r.Fits) : r.functions.Pairwise fun f g => f.last < g.first := by
  refine List.pairwise_filterMap.mpr (h.inOrder.apart.imp ?_)
  intro a b hlt f hf g hg
  rw [← Stmt.first_of_function hg]
  exact hlt f hf

theorem Fits.children_apart {r : Region} (h : r.Fits) :
    r.scope.children.Pairwise fun a b => a.last < b.first := by
  rw [scope_children, List.pairwise_map]
  refine h.functions_apart.imp fun {f g} hlt => ?_
  rw [f.scope_last, g.scope_first]
  exact hlt

theorem scope_mem_children {r f : Region} {st : Stmt} (hst : st ∈ r.own) (hf : st.function? = some f) :
    f.scope ∈ r.scope.children := by
  rw [scope_children]
  exact List.mem_map_of_mem (mem_functions.mpr ⟨st, hst, hf⟩)

theorem exists_of_mem_children {r : Region} {c : Scope} (hc : c ∈ r.scope.children) :
    ∃ st ∈ r.own, ∃ f, st.function? = some f ∧ c = f.scope := by
  rw [scope_children] at hc
  obtain ⟨f, hf, rfl⟩ := List.mem_map.mp hc
  obtain ⟨st, hst, hst'⟩ := mem_functions.mp hf
  exact ⟨st, hst, f, hst', rfl⟩

/-- Each scope of the tree is that of a function. -/
theorem exists_of_has {r : Region} {s : Scope} (h : r.scope.Has s) :
    ∃ f, s = f.scope ∧ (f = r ∨ Inside r.own f) := by
  generalize hroot : r.scope = root at h
  induction h generalizing r with
  | root => exact ⟨r, hroot.symm, Or.inl rfl⟩
  | child hc _ ih =>
    obtain ⟨st, hst, f, hf, hscope⟩ := exists_of_mem_children (hroot ▸ hc)
    obtain ⟨g, hg, hin⟩ := ih hscope.symm
    rcases hin with rfl | hin
    · exact ⟨g, hg, Or.inr (.here hst hf)⟩
    · exact ⟨g, hg, Or.inr (.within hst hf hin)⟩

/-- Each function has its scope in the tree. -/
theorem has_of_inside {r f : Region} (h : Inside r.own f) : r.scope.Has f.scope := by
  generalize hown : r.own = own at h
  induction h generalizing r with
  | here hst hf => exact .child (scope_mem_children (hown ▸ hst) hf) .root
  | within hst hf _ ih => exact .child (scope_mem_children (hown ▸ hst) hf) (ih rfl)

theorem scope_mirrors {r : Region} (h : Orderly r.own) : r.scope.Mirrors r := by
  generalize hown : r.own = own at h
  induction h generalizing r with
  | mk _ _ ih =>
    refine .mk r.scope_first r.scope_last ?_
    rw [scope_children, List.forall₂_map_left_iff, List.forall₂_same]
    intro f hf
    obtain ⟨st, hst, hst'⟩ := mem_functions.mp hf
    exact ih st (hown ▸ hst) f hst' rfl

theorem Fits.scope_wellFormed {r : Region} (h : r.Fits) (ho : Orderly r.own)
    (hlines : r.scope.records ≠ [] → r.first ≤ r.last) : r.scope.WellFormed where
  records record hrecord := by
    obtain ⟨hlast, hfirst⟩ := r.scope_records hrecord
    rw [r.scope_first, r.scope_last, hlast]
    rcases hfirst with heq | ⟨st, hst, heq⟩
    · rw [heq]
      exact ⟨Nat.le_refl _, hlines (List.ne_nil_of_mem hrecord), rfl⟩
    · rw [heq]
      exact ⟨(h.covers st hst).1, (h.covers st hst).2, rfl⟩
  contained c hc := by
    obtain ⟨st, hst, f, hst', rfl⟩ := exists_of_mem_children hc
    have hfirst := (h.covers st hst).1
    rw [Stmt.first_of_function hst'] at hfirst
    have hlast := h.inside st hst f hst'
    have hle := (ho.fits hst hst').1.first_le
    simp [Scope.contains, scope_first, scope_last, hfirst, hlast, hle]
  apart := h.children_apart

/-- A function begins before the functions in it. -/
theorem FitsFunction.scope_deeper {f : Region} (h : f.FitsFunction) {c : Scope} (hc : c ∈ f.scope.children) :
    f.scope.first < c.first := by
  obtain ⟨st, hst, g, hst', rfl⟩ := exists_of_mem_children hc
  rw [scope_first, scope_first]
  exact h.deeper st hst g hst'

end Region

/-- A module in whose scope something is recorded has a line. -/
theorem Module.lines_of_records {m : Module} {lines : Nat} (h : (m.region lines).Fits)
    (hrecords : (m.region lines).scope.records ≠ []) : 1 ≤ lines := by
  have hbody : m.body ≠ [] := by
    intro hnil
    refine hrecords ?_
    rw [Region.scope_of_module, Scope.ofModule, hnil]
    rfl
  obtain ⟨st, ss, hcons⟩ := List.exists_cons_of_ne_nil hbody
  have hst : st ∈ (m.region lines).own := by
    rw [Region.own, Module.region, hcons]
    exact List.mem_append_left _ List.mem_cons_self
  exact Nat.le_trans (h.covers st hst).1 (h.covers st hst).2

/-! ## Scopes of sources -/

/-- The tree of the scopes of a region: its scopes are those of the functions, which share lines with
each other only if one is in the other, and whose statements begin on the lines of their scopes. -/
structure Scope.TreeOf (root : Scope) (r : Region) : Prop where
  mirrors : root.Mirrors r
  wellFormed : ∀ s, root.Has s → s.WellFormed
  deeper : ∀ p ∈ root.children, ∀ s, p.Has s → ∀ c ∈ s.children, s.first < c.first
  nested : ∀ f g line, Inside r.own f → Inside r.own g → f.Covers line → g.Covers line →
    f = g ∨ Inside f.own g ∨ Inside g.own f
  covers : ∀ f, Inside r.own f → ∃ s, root.Has s ∧ s.Mirrors f ∧
    ∀ st ∈ f.own, s.first ≤ st.span.start.line ∧ st.span.start.line ≤ s.last

theorem scope_treeOf {m : Module} {lines : Nat} (h : (m.region lines).Fits)
    (ho : Orderly (m.region lines).own) : (m.region lines).scope.TreeOf (m.region lines) where
  mirrors := Region.scope_mirrors ho
  wellFormed s hs := by
    obtain ⟨f, rfl, hf⟩ := Region.exists_of_has hs
    rcases hf with rfl | hf
    · exact h.scope_wellFormed ho (Module.lines_of_records h)
    · obtain ⟨hfits, horderly⟩ := ho.fits_inside hf
      exact hfits.toFits.scope_wellFormed horderly fun _ => hfits.first_le
  deeper p hp s hs c hc := by
    obtain ⟨st, hst, f, hst', rfl⟩ := Region.exists_of_mem_children hp
    obtain ⟨hfits, horderly⟩ := ho.fits hst hst'
    obtain ⟨g, rfl, hg⟩ := Region.exists_of_has hs
    rcases hg with rfl | hg
    · exact hfits.scope_deeper hc
    · exact (horderly.fits_inside hg).1.scope_deeper hc
  nested f g line hf hg hfl hgl := nested_of_common ho h.inOrder hf hg hfl hgl
  covers f hf := by
    obtain ⟨hfits, horderly⟩ := ho.fits_inside hf
    refine ⟨f.scope, Region.has_of_inside hf, Region.scope_mirrors horderly, fun st hst => ?_⟩
    rw [f.scope_first, f.scope_last]
    exact hfits.covers st hst

/-- Each source that can be read has a tree of scopes, which is the one of its functions. -/
theorem ofText_treeOf {source : String} {m : Module} (h : Module.ofText source = .ok m) :
    ∃ root, Scope.ofText source = .ok root ∧
      root.TreeOf (m.region (Text.lineCount source.toList)) := by
  obtain ⟨hfits, horderly⟩ := Reading.ofText_fits h
  refine ⟨Scope.ofModule m (Text.lineCount source.toList), ?_, scope_treeOf hfits horderly⟩
  rw [Scope.ofText, h]
  rfl

/-- A function in a function, with statements before and after it. -/
def nestedSource : String := "def f(a: int):\n    def g():\n        pass\n    x: str = a\ny = 1\n"

theorem exists_nested : ∃ m, Module.ofText nestedSource = .ok m := by
  have hok : (Module.ofText nestedSource).isOk = true := by decide +kernel
  cases h : Module.ofText nestedSource with
  | ok m => exact ⟨m, rfl⟩
  | error e => rw [h] at hok; exact absurd hok nofun

theorem treeOf_nested : ∃ m, Module.ofText nestedSource = .ok m ∧ ∃ root,
    Scope.ofText nestedSource = .ok root ∧ root.TreeOf (m.region (Text.lineCount nestedSource.toList)) := by
  obtain ⟨m, hm⟩ := exists_nested
  exact ⟨m, hm, ofText_treeOf hm⟩

end TypeWatch
