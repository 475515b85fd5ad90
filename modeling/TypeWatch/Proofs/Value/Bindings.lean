import TypeWatch.Proofs.Basic
import TypeWatch.Value.Namespace

/-! # Names and their values

Every operation on a namespace looks for the first binding of a name. While no name is bound twice, this is
the only one: a name that is bound again keeps its place and all else is as it was
(`bindings_insert_of_mem`), and a name that is removed leaves the others as they were, in their order
(`bindings_remove`). No operation binds a name twice (`nodup_insert`, `nodup_remove`). -/
namespace TypeWatch.Namespace
set_option autoImplicit false

/-! ## Bindings -/

section Bindings

variable {bindings : List (String × Value)} {name : String}

theorem ne_of_not_mem (h : name ∉ bindings.map Prod.fst) : ∀ b ∈ bindings, b.1 ≠ name :=
  fun b hb heq => h (List.mem_map.mpr ⟨b, hb, heq⟩)

theorem lookup_put (bindings : List (String × Value)) (name other : String) (v : Value) :
    (put name v bindings).lookup other = if other = name then some v else bindings.lookup other := by
  induction bindings with
  | nil => exact lookup_cons_if name v [] other
  | cons b bindings ih =>
    obtain ⟨bound, w⟩ := b
    rw [put, lookup_cons_if]
    by_cases hbound : bound = name
    · subst hbound
      rw [if_pos rfl, lookup_cons_if]
      split <;> rfl
    · rw [if_neg hbound, lookup_cons_if, ih]
      by_cases hother : other = bound
      · subst hother
        rw [if_pos rfl, if_pos rfl, if_neg hbound]
      · rw [if_neg hother, if_neg hother]

theorem put_of_not_mem (h : name ∉ bindings.map Prod.fst) (v : Value) :
    put name v bindings = bindings ++ [(name, v)] := by
  induction bindings with
  | nil => rfl
  | cons b bindings ih =>
    obtain ⟨bound, w⟩ := b
    rw [List.map_cons, List.mem_cons, not_or] at h
    rw [put, if_neg (Ne.symm h.1), ih h.2]
    rfl

theorem put_of_mem (hnodup : (bindings.map Prod.fst).Nodup) (h : name ∈ bindings.map Prod.fst) (v : Value) :
    put name v bindings = bindings.map fun b => if b.1 = name then (name, v) else b := by
  induction bindings with
  | nil => exact absurd h List.not_mem_nil
  | cons b bindings ih =>
    obtain ⟨bound, w⟩ := b
    obtain ⟨hfresh, hnodup⟩ := List.nodup_cons.mp hnodup
    rw [put, List.map_cons]
    by_cases hbound : bound = name
    · subst hbound
      have hothers : bindings.map (fun b => if b.1 = bound then (bound, v) else b) = bindings.map id :=
        List.map_congr_left fun b hb => if_neg (ne_of_not_mem hfresh b hb)
      rw [if_pos rfl, if_pos rfl, hothers, List.map_id]
    · have hrest : name ∈ bindings.map Prod.fst := (List.mem_cons.mp h).resolve_left (Ne.symm hbound)
      rw [if_neg hbound, if_neg hbound, ih hnodup hrest]

/-- The value that is taken out is the one that is found, and the rest has all other names. -/
theorem extract_eq (hnodup : (bindings.map Prod.fst).Nodup) (name : String) :
    extract name bindings = (bindings.lookup name, bindings.filter fun b => b.1 != name) := by
  induction bindings with
  | nil => rfl
  | cons b bindings ih =>
    obtain ⟨bound, w⟩ := b
    obtain ⟨hfresh, hnodup⟩ := List.nodup_cons.mp hnodup
    rw [extract, lookup_cons_if]
    by_cases hbound : bound = name
    · subst hbound
      have hothers : bindings.filter (fun b => b.1 != bound) = bindings :=
        List.filter_eq_self.mpr fun b hb => bne_iff_ne.mpr (ne_of_not_mem hfresh b hb)
      rw [if_pos rfl, if_pos rfl, List.filter_cons_of_neg (by simp), hothers]
    · rw [if_neg hbound, if_neg (Ne.symm hbound), ih hnodup,
        List.filter_cons_of_pos (by simpa using hbound)]
      rfl

theorem lookup_eq_some_iff_mem (hnodup : (bindings.map Prod.fst).Nodup) {v : Value} :
    bindings.lookup name = some v ↔ (name, v) ∈ bindings := by
  induction bindings with
  | nil => simp
  | cons b bindings ih =>
    obtain ⟨bound, w⟩ := b
    obtain ⟨hfresh, hnodup⟩ := List.nodup_cons.mp hnodup
    rw [lookup_cons_if, List.mem_cons, Prod.mk.injEq]
    by_cases hbound : name = bound
    · subst hbound
      have hnot : (name, v) ∉ bindings := fun hmem => ne_of_not_mem hfresh _ hmem rfl
      simp [hnot, eq_comm]
    · simp [hbound, ih hnodup]

end Bindings

/-! ## Operations -/

variable {ns : Namespace} {name : String}

theorem get?_eq_some_iff (hnodup : ns.names.Nodup) {v : Value} :
    ns.get? name = some v ↔ (name, v) ∈ ns.bindings :=
  lookup_eq_some_iff_mem hnodup

theorem mem_names_iff (hnodup : ns.names.Nodup) : name ∈ ns.names ↔ ∃ v, ns.get? name = some v := by
  simp [names, get?_eq_some_iff hnodup]

theorem contains_iff (hnodup : ns.names.Nodup) : ns.contains name = true ↔ name ∈ ns.names := by
  rw [contains, Option.isSome_iff_exists, mem_names_iff hnodup]

theorem get?_insert (ns : Namespace) (name other : String) (v : Value) :
    (ns.insert name v).get? other = if other = name then some v else ns.get? other :=
  lookup_put ns.bindings name other v

/-- A name that is bound again keeps its place. -/
theorem bindings_insert_of_mem (hnodup : ns.names.Nodup) (h : name ∈ ns.names) (v : Value) :
    (ns.insert name v).bindings = ns.bindings.map fun b => if b.1 = name then (name, v) else b :=
  put_of_mem hnodup h v

theorem names_insert_of_mem (hnodup : ns.names.Nodup) (h : name ∈ ns.names) (v : Value) :
    (ns.insert name v).names = ns.names := by
  rw [names, bindings_insert_of_mem hnodup h, List.map_map]
  refine List.map_congr_left fun b _ => ?_
  by_cases hb : b.1 = name <;> simp [hb]

theorem bindings_insert_of_not_mem (h : name ∉ ns.names) (v : Value) :
    (ns.insert name v).bindings = ns.bindings ++ [(name, v)] :=
  put_of_not_mem h v

theorem names_insert_of_not_mem (h : name ∉ ns.names) (v : Value) :
    (ns.insert name v).names = ns.names ++ [name] := by
  rw [names, bindings_insert_of_not_mem h, List.map_append]
  rfl

theorem nodup_insert (hnodup : ns.names.Nodup) (name : String) (v : Value) :
    (ns.insert name v).names.Nodup := by
  by_cases h : name ∈ ns.names
  · rwa [names_insert_of_mem hnodup h]
  · rw [names_insert_of_not_mem h]
    refine List.nodup_append.mpr ⟨hnodup, List.pairwise_singleton _ _, fun other hother last hlast heq => ?_⟩
    obtain rfl := List.mem_singleton.mp hlast
    exact h (heq ▸ hother)

theorem pop_eq (hnodup : ns.names.Nodup) (name : String) :
    ns.pop name = (ns.get? name, ⟨ns.bindings.filter fun b => b.1 != name⟩) := by
  rw [pop, extract_eq hnodup]
  rfl

theorem bindings_remove (hnodup : ns.names.Nodup) (name : String) :
    (ns.remove name).bindings = ns.bindings.filter fun b => b.1 != name := by
  rw [remove, pop_eq hnodup]

theorem get?_remove (hnodup : ns.names.Nodup) (name other : String) :
    (ns.remove name).get? other = if other = name then none else ns.get? other := by
  rw [get?, bindings_remove hnodup, lookup_filter_ne]
  rfl

theorem names_remove (hnodup : ns.names.Nodup) (name : String) :
    (ns.remove name).names = ns.names.filter (· != name) := by
  rw [names, bindings_remove hnodup, names, List.filter_map]
  rfl

theorem nodup_remove (hnodup : ns.names.Nodup) (name : String) : (ns.remove name).names.Nodup := by
  rw [names_remove hnodup]
  exact hnodup.filter _

end TypeWatch.Namespace
