import Mathlib.Data.List.Induction
import TypeWatch.Proofs.Basic
import TypeWatch.Proofs.Scope.Growth

/-! # The type of a name on a line

Of the records of a scope that hold on a line, the last one with a type decides what type a name has there
(`type_ownTypesAt`). In the scope of a region, that is the binding that comes last in the text
(`Region.Latest`). -/
namespace TypeWatch
set_option autoImplicit false

/-! ## Records on a line -/

namespace LineTypes

/-- The type that a name is declared with. -/
def type (types : LineTypes) (name : String) : Option String := (types.lookup name).join

theorem lookup_declare (types : LineTypes) (declared t name : String) :
    (types.declare declared t).lookup name = if name = declared then some (some t) else types.lookup name := by
  induction types with
  | nil => rw [declare, lookup_cons_if]
  | cons entry rest ih =>
    obtain ⟨known, old⟩ := entry
    rw [declare]
    split
    · rename_i hknown
      rw [lookup_cons_if, lookup_cons_if, hknown]
      split <;> rfl
    · rename_i hknown
      rw [lookup_cons_if, lookup_cons_if, ih]
      by_cases hname : name = known
      · rw [if_pos hname, if_pos hname, if_neg (hname ▸ hknown)]
      · rw [if_neg hname, if_neg hname]

theorem type_mention (types : LineTypes) (mentioned name : String) :
    (types.mention mentioned).type name = types.type name := by
  unfold mention type
  split
  · rfl
  · rename_i hnone
    have hlookup : types.lookup mentioned = none := Option.not_isSome_iff_eq_none.mp hnone
    rw [List.lookup_append, lookup_cons_if, List.lookup_nil]
    by_cases hname : name = mentioned
    · rw [if_pos hname, hname, hlookup]
      rfl
    · rw [if_neg hname, Option.or_none]

end LineTypes

/-- Whether a record says something of a name on a line. -/
def TypeRecord.tells (line : Nat) (name : String) (r : TypeRecord) : Bool :=
  decide (r.first ≤ line ∧ line ≤ r.last ∧ name = r.name)

namespace Scope

theorem type_applyRecord (line : Nat) (types : LineTypes) (r : TypeRecord) (name : String) :
    (applyRecord line types r).type name =
      if r.tells line name = true then r.type.or (types.type name) else types.type name := by
  unfold applyRecord TypeRecord.tells
  by_cases hline : r.first ≤ line ∧ line ≤ r.last
  · rw [if_pos hline]
    cases htype : r.type with
    | none => simp [LineTypes.type_mention]
    | some t =>
      rw [LineTypes.type, LineTypes.lookup_declare]
      by_cases hname : name = r.name
      · simp [hline, hname]
      · simp [hname, LineTypes.type]
  · rw [if_neg hline]
    split
    · rename_i htells
      have hholds := of_decide_eq_true htells
      exact absurd ⟨hholds.1, hholds.2.1⟩ hline
    · rfl

/-- The last record with a type that says something of a name decides its type. -/
theorem type_ownTypesAt (s : Scope) (line : Nat) (name : String) :
    (s.ownTypesAt line).type name =
      ((s.typed.filter (TypeRecord.tells line name)).getLast?).bind TypeRecord.type := by
  unfold ownTypesAt typed
  induction s.records using List.reverseRecOn with
  | nil => rfl
  | append_singleton rs r ih =>
    rw [List.foldl_append, List.foldl_cons, List.foldl_nil, type_applyRecord, ih, List.filter_append,
      List.filter_append, List.getLast?_append]
    by_cases htells : r.tells line name = true
    · cases htype : r.type with
      | none => simp [htells, htype]
      | some t => simp [htells, htype]
    · cases htype : r.type with
      | none => simp [htells, htype]
      | some t => simp [htells, htype]

end Scope

/-! ## Bindings on a line -/

namespace Region

/-- The binding of a name in a region that counts on a line and comes last in the text. -/
structure Latest (r : Region) (line : Nat) (name : String) (b : Binding) : Prop where
  mem : b ∈ r.bindings
  name_eq : b.name = name
  line_le : b.line ≤ line
  last : ∀ b' ∈ r.bindings, b'.name = name → b'.line ≤ line → b'.place ≤ b.place

/-- The bindings of a name in a region that count on a line. -/
def known (r : Region) (line : Nat) (name : String) : List Binding :=
  r.bindings.filter fun b => decide (b.line ≤ line ∧ name = b.name)

theorem mem_known {r : Region} {line : Nat} {name : String} {b : Binding} :
    b ∈ r.known line name ↔ b ∈ r.bindings ∧ b.line ≤ line ∧ name = b.name := by
  simp [known]

/-- The type of a name in the scope of a region is that of the last of its bindings. -/
theorem type_ownTypesAt {r : Region} {line : Nat} (hline : line ≤ r.last) (name : String) :
    (r.scope.ownTypesAt line).type name = ((r.known line name).getLast?).map Binding.type := by
  have htells : TypeRecord.tells line name ∘ Binding.record r.last =
      fun b => decide (b.line ≤ line ∧ name = b.name) := by
    funext b
    simp [TypeRecord.tells, Binding.record, hline]
  rw [Scope.type_ownTypesAt, scope_typed, List.filter_map, htells, List.getLast?_map, known,
    Option.bind_map]
  cases (r.bindings.filter fun b => decide (b.line ≤ line ∧ name = b.name)).getLast? <;> rfl

theorem Fits.bindings_ordered {r : Region} (h : r.Fits) : r.bindings.Pairwise fun a b => a.place < b.place := by
  have hstarts := List.pairwise_append.mp h.starts
  have hparameter {p : Parameter} {b : Binding} (hb : p.binding? r.first = some b) :
      b.place = p.span.start := by
    obtain ⟨_, _, rfl⟩ := Option.map_eq_some_iff.mp hb
    rfl
  have hstmt {s : Stmt} {b : Binding} (hb : s.binding? = some b) : b.place = s.span.start := by
    unfold Stmt.binding? at hb
    split at hb
    · obtain rfl := Option.some.inj hb
      rfl
    · exact absurd hb nofun
  refine List.pairwise_append.mpr ⟨?_, ?_, ?_⟩
  · refine List.pairwise_filterMap.mpr ((List.pairwise_map.mp hstarts.1).imp ?_)
    intro p q hlt b hb b' hb'
    rw [hparameter hb, hparameter hb']
    exact hlt
  · refine List.pairwise_filterMap.mpr ((List.pairwise_map.mp hstarts.2.1).imp ?_)
    intro s t hlt b hb b' hb'
    rw [hstmt hb, hstmt hb']
    exact hlt
  · intro b hb b' hb'
    obtain ⟨p, hp, hb⟩ := List.mem_filterMap.mp hb
    obtain ⟨s, hs, hb'⟩ := List.mem_filterMap.mp hb'
    rw [hparameter hb, hstmt hb']
    exact hstarts.2.2 _ (List.mem_map_of_mem hp) _ (List.mem_map_of_mem hs)

/-- The other bindings that count stand before the last one. -/
theorem Fits.eq_or_before_last {r : Region} (h : r.Fits) {line : Nat} {name : String} {a b : Binding}
    (hlast : (r.known line name).getLast? = some b) (ha : a ∈ r.known line name) :
    a = b ∨ a.place < b.place := by
  obtain ⟨before, hknown⟩ := List.getLast?_eq_some_iff.mp hlast
  have hordered : (r.known line name).Pairwise fun a b => a.place < b.place :=
    h.bindings_ordered.filter _
  rw [hknown] at ha hordered
  rcases List.mem_append.mp ha with hin | hin
  · exact Or.inr ((List.pairwise_append.mp hordered).2.2 a hin b (List.mem_singleton.mpr rfl))
  · exact Or.inl (List.mem_singleton.mp hin)

/-- The last of the bindings that count is the latest one. -/
theorem Fits.getLast?_known {r : Region} (h : r.Fits) {line : Nat} {name : String} {b : Binding} :
    (r.known line name).getLast? = some b ↔ r.Latest line name b := by
  constructor
  · intro hlast
    obtain ⟨hb, hle, hname⟩ := mem_known.mp (List.mem_of_getLast? hlast)
    refine ⟨hb, hname.symm, hle, fun a ha haname hale => ?_⟩
    rcases h.eq_or_before_last hlast (mem_known.mpr ⟨ha, hale, haname.symm⟩) with rfl | hlt
    · exact a.place.le_refl
    · exact Position.le_of_lt hlt
  · intro hlatest
    have hmem := mem_known.mpr ⟨hlatest.mem, hlatest.line_le, hlatest.name_eq.symm⟩
    cases hlast : (r.known line name).getLast? with
    | none => exact absurd (List.getLast?_eq_none_iff.mp hlast) (List.ne_nil_of_mem hmem)
    | some c =>
      obtain ⟨hc, hle, hname⟩ := mem_known.mp (List.mem_of_getLast? hlast)
      have hback := hlatest.last c hc hname.symm hle
      rcases h.eq_or_before_last hlast hmem with rfl | hlt
      · rfl
      · exact absurd hlt.1 (Nat.not_lt.mpr hback.1)

end Region
end TypeWatch
