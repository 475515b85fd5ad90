import TypeWatch.Proofs.Scope.Latest
import TypeWatch.Proofs.Scope.Tree

/-! # Tables of types

On each of its lines a table knows what the scope of the innermost region there makes known
(`ofScope_innermost`). So the type of a name is that of the latest binding in the innermost function, or
in the module where there is none (`ofText_get?`). -/
namespace TypeWatch
set_option autoImplicit false

namespace TypeTable

/-! ## Overlays -/

section Overlay

variable {start i : Nat} {lines : List LineTypes}

theorem length_overlayAll (start : Nat) (lines : List LineTypes) (cs : List Scope) :
    (overlayAll start lines cs).length = lines.length := by
  induction cs generalizing lines with
  | nil => rfl
  | cons c cs ih => rw [overlayAll, ih, overlay, List.length_mapIdx]

theorem ofScope_eq (s : Scope) : ofScope s = overlayAll s.first s.ownTypes s.children := by
  obtain ⟨first, last, records, children⟩ := s
  rfl

theorem length_ofScope (s : Scope) : (ofScope s).length = s.size := by
  rw [ofScope_eq, length_overlayAll, Scope.ownTypes, List.length_map, List.length_range]

theorem getElem?_overlay (start : Nat) (lines : List LineTypes) (c : Scope) (i : Nat) :
    (overlay start lines c.first (ofScope c))[i]? = lines[i]?.map fun types =>
      if start + i < c.first then types else (ofScope c)[start + i - c.first]?.getD types := by
  rw [overlay, List.getElem?_mapIdx]

/-- A scope does not change the lines that it does not have. -/
theorem getElem?_overlay_of_outside {c : Scope} (h : ¬ (c.first ≤ start + i ∧ start + i ≤ c.last)) :
    (overlay start lines c.first (ofScope c))[i]? = lines[i]? := by
  rw [getElem?_overlay]
  by_cases hbefore : start + i < c.first
  · simp [hbefore]
  · have hnone : (ofScope c)[start + i - c.first]? = none := by
      rw [List.getElem?_eq_none_iff, length_ofScope, Scope.size]
      omega
    simp [hbefore, hnone]

/-- A scope hides the lines that it has. -/
theorem getElem?_overlay_of_inside {c : Scope} (h : c.first ≤ start + i ∧ start + i ≤ c.last)
    (hi : i < lines.length) :
    (overlay start lines c.first (ofScope c))[i]? = (ofScope c)[start + i - c.first]? := by
  have hlt : start + i - c.first < (ofScope c).length := by
    rw [length_ofScope, Scope.size]
    omega
  have hbefore : ¬ start + i < c.first := Nat.not_lt.mpr h.1
  rw [getElem?_overlay, List.getElem?_eq_getElem hi, List.getElem?_eq_getElem hlt]
  simp [hbefore]

theorem getElem?_overlayAll_of_outside {cs : List Scope}
    (h : ∀ c ∈ cs, ¬ (c.first ≤ start + i ∧ start + i ≤ c.last)) :
    (overlayAll start lines cs)[i]? = lines[i]? := by
  induction cs generalizing lines with
  | nil => rfl
  | cons c cs ih =>
    rw [overlayAll, ih fun c' hc' => h c' (List.mem_cons_of_mem c hc'),
      getElem?_overlay_of_outside (h c List.mem_cons_self)]

/-- Among scopes one after the other, the one that has a line decides what is known on it. -/
theorem getElem?_overlayAll_of_inside {cs : List Scope} (hcs : cs.Pairwise fun a b => a.last < b.first)
    {c : Scope} (hc : c ∈ cs) (h : c.first ≤ start + i ∧ start + i ≤ c.last) (hi : i < lines.length) :
    (overlayAll start lines cs)[i]? = (ofScope c)[start + i - c.first]? := by
  induction hcs generalizing lines with
  | nil => exact absurd hc List.not_mem_nil
  | @cons c' cs hall _ ih =>
    rw [overlayAll]
    rcases List.mem_cons.mp hc with rfl | hc
    · rw [getElem?_overlayAll_of_outside, getElem?_overlay_of_inside h hi]
      intro d hd hin
      have hlt := hall d hd
      omega
    · exact ih hc (by rw [overlay, List.length_mapIdx]; exact hi)

end Overlay

/-! ## Lines of regions -/

theorem getElem?_ownTypes (s : Scope) {line : Nat} (h : s.first ≤ line ∧ line ≤ s.last) :
    s.ownTypes[line - s.first]? = some (s.ownTypesAt line) := by
  have hlt : line - s.first < s.size := by
    rw [Scope.size]
    omega
  rw [Scope.ownTypes, List.getElem?_map, List.getElem?_range hlt, Option.map_some,
    Nat.add_sub_cancel' h.1]

/-- A line of a region knows what the innermost region around it makes known. -/
theorem ofScope_innermost {r : Region} (h : r.Fits) (ho : Orderly r.own) {line : Nat} (hline : r.Covers line) :
    ∃ f, r.Innermost line f ∧ (ofScope r.scope)[line - r.scope.first]? = some (f.scope.ownTypesAt line) := by
  generalize hown : r.own = own at ho
  induction ho generalizing r with
  | mk hfits horderly ih =>
    subst hown
    have hcovers : r.scope.first ≤ line ∧ line ≤ r.scope.last := by
      rw [r.scope_first, r.scope_last]
      exact hline
    have hstart : r.scope.first + (line - r.scope.first) = line := Nat.add_sub_cancel' hcovers.1
    by_cases hex : ∃ st ∈ r.own, ∃ f, st.function? = some f ∧ f.Covers line
    · -- a function in the region hides the line
      obtain ⟨st, hst, f, hf, hfl⟩ := hex
      have hfline : f.scope.first ≤ line ∧ line ≤ f.scope.last := by
        rw [f.scope_first, f.scope_last]
        exact hfl
      obtain ⟨g, hg, hvalue⟩ := ih st hst f hf (hfits st hst f hf).toFits hfl rfl
      refine ⟨g, ⟨Or.inr ?_, hg.covers, hg.bare⟩, ?_⟩
      · rcases hg.belongs with rfl | hin
        · exact .here hst hf
        · exact .within hst hf hin
      · have hlength : line - r.scope.first < r.scope.ownTypes.length := by
          rw [Scope.ownTypes, List.length_map, List.length_range, Scope.size]
          omega
        rw [← hstart] at hfline
        rw [ofScope_eq, getElem?_overlayAll_of_inside h.children_apart (Region.scope_mem_children hst hf) hfline
          hlength, hstart]
        exact hvalue
    · -- the line is one of the region itself
      have hbare : ∀ f, Inside r.own f → ¬ f.Covers line := by
        intro f hf hfl
        obtain ⟨st, hst, k, hk, _, hfirst, hlast⟩ := (Orderly.mk hfits horderly).outermost hf
        exact hex ⟨st, hst, k, hk, Nat.le_trans hfirst hfl.1, Nat.le_trans hfl.2 hlast⟩
      refine ⟨r, ⟨Or.inl rfl, hline, hbare⟩, ?_⟩
      rw [ofScope_eq, getElem?_overlayAll_of_outside, getElem?_ownTypes r.scope hcovers]
      intro c hc hin
      obtain ⟨st, hst, f, hf, rfl⟩ := Region.exists_of_mem_children hc
      rw [hstart, f.scope_first, f.scope_last] at hin
      exact hbare f (.here hst hf) hin

/-! ## Tables of sources -/

/-- What a table says of a name on a line is the annotation of the latest binding in a region, if there is
one. -/
structure Follows (t : TypeTable) (r : Region) (line : Nat) (name : String) : Prop where
  some_iff : ∀ type, t.get? line name = some type ↔ ∃ b, r.Latest line name b ∧ b.type = type
  none_iff : t.get? line name = none ↔ ∀ b ∈ r.bindings, b.name = name → line < b.line

/-- A table follows a region on a line that knows what the scope of the region makes known. -/
theorem follows_of_typesAt? {t : TypeTable} {r : Region} (h : r.Fits) {line : Nat} (hline : line ≤ r.last)
    (htypes : t.typesAt? line = some (r.scope.ownTypesAt line)) (name : String) : t.Follows r line name := by
  have hget : t.get? line name = ((r.known line name).getLast?).map Binding.type := by
    rw [get?, htypes]
    exact Region.type_ownTypesAt hline name
  refine ⟨fun type => ?_, ?_⟩
  · rw [hget, Option.map_eq_some_iff]
    exact exists_congr fun b => and_congr_left fun _ => h.getLast?_known
  · rw [hget, Option.map_eq_none_iff, List.getLast?_eq_none_iff, List.eq_nil_iff_forall_not_mem]
    constructor
    · intro hnone b hb hname
      exact Nat.lt_of_not_le fun hle => hnone b (Region.mem_known.mpr ⟨hb, hle, hname.symm⟩)
    · intro hlater b hb
      obtain ⟨hmem, hle, hname⟩ := Region.mem_known.mp hb
      exact Nat.not_lt.mpr hle (hlater b hmem hname.symm)

theorem typesAt?_ofRoot {root : Scope} (hroot : root.first = 1) {line : Nat} (hline : 1 ≤ line) :
    (ofRoot root).typesAt? line = (ofScope root)[line - root.first]? := by
  have hne : line ≠ 0 := Nat.ne_of_gt hline
  rw [typesAt?, if_neg hne, ofRoot, hroot]
  rfl

theorem lineEnd_ofRoot {root : Scope} (hroot : root.first = 1) : (ofRoot root).lineEnd = root.last := by
  rw [lineEnd, ofRoot, hroot]
  simp [length_ofScope, Scope.size, hroot]

/-- The table of a source that can be read follows the innermost region on each of its lines. -/
theorem ofText_get? {source : String} {m : Module} (h : Module.ofText source = .ok m) :
    ∃ t, ofText source = .ok t ∧ t.lineEnd = Text.lineCount source.toList ∧
      ∀ line name, 1 ≤ line → line ≤ t.lineEnd → ∃ r, (m.region t.lineEnd).Innermost line r ∧
        (∀ r', (m.region t.lineEnd).Innermost line r' → r' = r) ∧ t.Follows r line name := by
  obtain ⟨hfits, horderly⟩ := Reading.ofText_fits h
  have hfirst : (m.region (Text.lineCount source.toList)).scope.first = 1 := Region.scope_first _
  have hend := (lineEnd_ofRoot hfirst).trans (Region.scope_last _)
  refine ⟨ofRoot (m.region (Text.lineCount source.toList)).scope, ?_, hend, ?_⟩
  · rw [ofText, Scope.ofText, h]
    rfl
  · intro line name hone hlast
    rw [hend] at hlast ⊢
    have hcovers : (m.region (Text.lineCount source.toList)).Covers line := ⟨hone, hlast⟩
    obtain ⟨r, hr, hvalue⟩ := ofScope_innermost hfits horderly hcovers
    have hrfits : r.Fits := by
      rcases hr.belongs with rfl | hin
      · exact hfits
      · exact (horderly.fits_inside hin).1.toFits
    refine ⟨r, hr, fun r' hr' => hr'.unique horderly hfits.inOrder hr, ?_⟩
    refine follows_of_typesAt? hrfits hr.covers.2 ?_ name
    rw [typesAt?_ofRoot hfirst hone]
    exact hvalue

/-- On the fourth line the local variable of the outer function is known. -/
theorem get?_nested : ∃ m t, Module.ofText nestedSource = .ok m ∧ ofText nestedSource = .ok t ∧
    t.get? 4 "x" = some "str" ∧ ∃ r, (m.region t.lineEnd).Innermost 4 r ∧
      (∀ r', (m.region t.lineEnd).Innermost 4 r' → r' = r) ∧ t.Follows r 4 "x" := by
  have hcount : Text.lineCount nestedSource.toList = 5 := by decide +kernel
  have hvalue : (ofText nestedSource).toOption.bind (fun t => t.get? 4 "x") = some "str" := by decide +kernel
  obtain ⟨m, hm⟩ := exists_nested
  obtain ⟨t, ht, hend, hfollows⟩ := ofText_get? hm
  rw [ht] at hvalue
  exact ⟨m, t, hm, ht, hvalue, hfollows 4 "x" (by decide) (by rw [hend, hcount]; decide)⟩

end TypeTable
end TypeWatch
