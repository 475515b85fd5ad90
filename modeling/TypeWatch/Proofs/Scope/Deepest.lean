import TypeWatch.Proofs.Scope.Table

/-! # The scope that decides a line

The scopes of a tree may overlap, stick out of each other and have no lines at all. What a table knows on a line is
what the scope makes known at which a walk ends that goes down from the root, each time to the last child that has
the line (`TypeTable.ofScope_deepest`). -/
namespace TypeWatch
set_option autoImplicit false

/-! ## Declarations on a line -/

namespace TypeRecord

/-- Whether a record is one of a name, from a line on that is not after the given one. -/
def begun (line : Nat) (name : String) (r : TypeRecord) : Bool := decide (r.first ≤ line ∧ r.name = name)

/-- What records say of a name on a line: that it has the type of the last annotated one of them, or that it is
known without a type. -/
def known (line : Nat) (name : String) (records : List TypeRecord) : Option (Option String) :=
  let own := records.filter (begun line name)
  if own.isEmpty then none else some (own.filterMap TypeRecord.type).getLast?

theorem known_append (line : Nat) (name : String) (records : List TypeRecord) (r : TypeRecord) :
    known line name (records ++ [r]) =
      if r.begun line name then some (r.type.or (known line name records).join) else known line name records := by
  unfold known
  rw [List.filter_append]
  cases hbegun : r.begun line name with
  | false => simp [hbegun]
  | true =>
    cases hown : records.filter (begun line name) with
    | nil => cases htype : r.type <;> simp [hbegun, htype]
    | cons a own => cases htype : r.type <;> simp [hbegun, htype]

/-- The place of a record without a type among the others does not matter. -/
theorem known_congr {line : Nat} {name : String} {records records' : List TypeRecord} (hperm : records.Perm records')
    (htyped : records.filter (fun r => r.type.isSome) = records'.filter fun r => r.type.isSome) :
    known line name records = known line name records' := by
  have htypes : ∀ rs : List TypeRecord, (rs.filter (begun line name)).filterMap TypeRecord.type =
      ((rs.filter fun r => r.type.isSome).filter (begun line name)).filterMap TypeRecord.type := by
    intro rs
    rw [List.filter_filter, List.filterMap_filter, List.filterMap_filter]
    refine List.filterMap_congr fun r _ => ?_
    cases r.type <;> simp
  simp only [known]
  rw [htypes records, htypes records', htyped, (hperm.filter (begun line name)).isEmpty_eq]

end TypeRecord

theorem LineTypes.lookup_mention (types : LineTypes) (mentioned name : String) :
    (types.mention mentioned).lookup name =
      if name = mentioned then some (types.lookup name).join else types.lookup name := by
  unfold mention
  split
  · rename_i hsome
    split
    · rename_i hname
      obtain ⟨type, htype⟩ := Option.isSome_iff_exists.mp hsome
      rw [hname, htype]
      rfl
    · rfl
  · rename_i hnone
    rw [List.lookup_append, lookup_cons_if, List.lookup_nil]
    by_cases hname : name = mentioned
    · rw [if_pos hname, if_pos hname, hname, Option.not_isSome_iff_eq_none.mp hnone]
      rfl
    · rw [if_neg hname, if_neg hname, Option.or_none]

namespace Scope

/-! ## Trees of scopes -/

/-- Scopes that are made from their lines by declarations and by scopes in them, in any order. -/
inductive Built : Scope → Prop
  | ofLines (first last : Nat) : Built (ofLines first last)
  | add {s : Scope} (h : Built s) (name : String) (type : Option String) (line : Option Nat) :
    Built (s.add name type line)
  | addChild {s c : Scope} (h : Built s) (hc : Built c) : Built (s.addChild c)

/-- What is declared in a scope holds to its end. -/
theorem Built.last_of_record {s : Scope} (h : s.Built) : ∀ r ∈ s.records, r.last = s.last := by
  induction h with
  | ofLines first last => exact List.forall_mem_nil _
  | add h name type line ih => exact List.forall_mem_append.mpr ⟨ih, List.forall_mem_singleton.mpr rfl⟩
  | addChild h hc ih ihc => exact ih

theorem Built.child {s : Scope} (h : s.Built) : ∀ c ∈ s.children, c.Built := by
  induction h with
  | ofLines first last => exact List.forall_mem_nil _
  | add h name type line ih => exact ih
  | addChild h hc ih ihc => exact List.forall_mem_append.mpr ⟨ih, List.forall_mem_singleton.mpr hc⟩

/-- On each of its lines, a scope makes known what its records say. -/
theorem lookup_ownTypesAt {s : Scope} {line : Nat} (h : ∀ r ∈ s.records, r.last = s.last) (hline : line ≤ s.last)
    (name : String) : (s.ownTypesAt line).lookup name = TypeRecord.known line name s.records := by
  unfold ownTypesAt
  generalize s.records = records at h
  induction records using List.reverseRecOn with
  | nil => rfl
  | append_singleton records r ih =>
    have hlast : r.last = s.last := h r (List.mem_append_right _ List.mem_cons_self)
    have hsofar := ih fun r' hr' => h r' (List.mem_append_left _ hr')
    rw [List.foldl_append, List.foldl_cons, List.foldl_nil, TypeRecord.known_append, ← hsofar, applyRecord,
      TypeRecord.begun, hlast]
    by_cases hfirst : r.first ≤ line
    · rw [if_pos ⟨hfirst, hline⟩]
      cases htype : r.type with
      | some type => simp [LineTypes.lookup_declare, hfirst, eq_comm]
      | none => simp [LineTypes.lookup_mention, hfirst, eq_comm]
    · simp [hfirst]

/-! ## Walks -/

def covers (line : Nat) (s : Scope) : Bool := decide (s.first ≤ line ∧ line ≤ s.last)

theorem covers_iff {line : Nat} {s : Scope} : s.covers line = true ↔ s.first ≤ line ∧ line ≤ s.last :=
  decide_eq_true_iff

theorem sizeOf_child {s c : Scope} (h : c ∈ s.children) : sizeOf c < sizeOf s := by
  obtain ⟨first, last, records, children⟩ := s
  have hlt : sizeOf c < sizeOf children := List.sizeOf_lt_of_mem h
  rw [mk.sizeOf_spec]
  omega

/-- The last of the children that have a line. -/
def lastChild? (line : Nat) (s : Scope) : Option Scope := (s.children.filter (covers line)).getLast?

theorem mem_of_lastChild? {line : Nat} {s c : Scope} (h : s.lastChild? line = some c) :
    c ∈ s.children ∧ c.covers line = true :=
  List.mem_filter.mp (List.mem_of_getLast? h)

/-- Where one comes to from a scope by going over to the last child that has a line, as long as there is one. -/
def deepest (line : Nat) (s : Scope) : Scope :=
  match _h : s.lastChild? line with
  | some c => c.deepest line
  | none => s
termination_by sizeOf s
decreasing_by exact sizeOf_child (mem_of_lastChild? _h).1

theorem deepest_of_some {line : Nat} {s c : Scope} (h : s.lastChild? line = some c) :
    s.deepest line = c.deepest line := by
  rw [deepest]
  split
  · rename_i d hd
    obtain rfl := Option.some.inj (hd.symm.trans h)
    rfl
  · rename_i hnone
    rw [hnone] at h
    cases h

theorem deepest_of_none {line : Nat} {s : Scope} (h : s.lastChild? line = none) : s.deepest line = s := by
  rw [deepest]
  split
  · rename_i d hd
    rw [hd] at h
    cases h
  · rfl

/-- What holds of a scope and goes over to its children holds where the walk ends. -/
theorem deepest_induction {motive : Scope → Prop} {line : Nat} {s : Scope} (h : motive s)
    (hchild : ∀ s c, motive s → c ∈ s.children → c.covers line = true → motive c) : motive (s.deepest line) := by
  cases hc : s.lastChild? line with
  | none => rwa [deepest_of_none hc]
  | some c =>
    obtain ⟨hmem, hcovers⟩ := mem_of_lastChild? hc
    rw [deepest_of_some hc]
    exact deepest_induction (hchild s c h hmem hcovers) hchild
termination_by sizeOf s
decreasing_by exact sizeOf_child hmem

theorem Built.deepest {s : Scope} (h : s.Built) (line : Nat) : (s.deepest line).Built :=
  deepest_induction h fun _ c hs hc _ => hs.child c hc

theorem covers_deepest {line : Nat} {s : Scope} (h : s.covers line = true) : (s.deepest line).covers line = true :=
  deepest_induction h fun _ _ _ _ hcovers => hcovers

end Scope

/-! ## Lines of tables -/

namespace TypeTable

theorem overlayAll_append (start : Nat) (lines : List LineTypes) (cs : List Scope) (c : Scope) :
    overlayAll start lines (cs ++ [c]) = overlay start (overlayAll start lines cs) c.first (ofScope c) := by
  induction cs generalizing lines with
  | nil => rfl
  | cons d cs ih => exact ih _

/-- Of the scopes that are laid over lines, the last one that has a line decides it. -/
theorem getElem?_overlayAll {start i : Nat} {lines : List LineTypes} (hi : i < lines.length) (cs : List Scope) :
    (overlayAll start lines cs)[i]? =
      match (cs.filter (Scope.covers (start + i))).getLast? with
      | some c => (ofScope c)[start + i - c.first]?
      | none => lines[i]? := by
  induction cs using List.reverseRecOn with
  | nil => rfl
  | append_singleton cs c ih =>
    rw [overlayAll_append, List.filter_append]
    cases hc : c.covers (start + i) with
    | true =>
      rw [getElem?_overlay_of_inside (Scope.covers_iff.mp hc) (by rw [length_overlayAll]; exact hi)]
      simp [hc]
    | false =>
      have hout : ¬ (c.first ≤ start + i ∧ start + i ≤ c.last) := fun hin =>
        Bool.false_ne_true (hc.symm.trans (Scope.covers_iff.mpr hin))
      rw [getElem?_overlay_of_outside hout, ih]
      simp [hc]

theorem ofScope_deepest {s : Scope} {line : Nat} (h : s.covers line = true) :
    (ofScope s)[line - s.first]? = some ((s.deepest line).ownTypesAt line) := by
  have hs := Scope.covers_iff.mp h
  have hplace : s.first + (line - s.first) = line := Nat.add_sub_cancel' hs.1
  have hlength : line - s.first < s.ownTypes.length := by
    rw [Scope.ownTypes, List.length_map, List.length_range, Scope.size]
    omega
  rw [ofScope_eq, getElem?_overlayAll hlength, hplace]
  cases hc : s.lastChild? line with
  | none =>
    rw [Scope.deepest_of_none hc]
    rw [Scope.lastChild?] at hc
    rw [hc]
    exact getElem?_ownTypes s hs
  | some c =>
    obtain ⟨hmem, hcovers⟩ := Scope.mem_of_lastChild? hc
    rw [Scope.deepest_of_some hc]
    rw [Scope.lastChild?] at hc
    rw [hc]
    exact ofScope_deepest hcovers
termination_by sizeOf s
decreasing_by exact Scope.sizeOf_child hmem

theorem lineEnd_ofRoot_eq_max {root : Scope} (hfirst : 1 ≤ root.first) :
    (ofRoot root).lineEnd = max (root.first - 1) root.last := by
  rw [lineEnd, ofRoot, List.length_append, List.length_replicate, length_ofScope, Scope.size]
  omega

theorem typesAt?_ofRoot_deepest {root : Scope} (hfirst : 1 ≤ root.first) {line : Nat}
    (h : root.covers line = true) : (ofRoot root).typesAt? line = some ((root.deepest line).ownTypesAt line) := by
  have hline := Scope.covers_iff.mp h
  have hne : line ≠ 0 := Nat.ne_of_gt (Nat.le_trans hfirst hline.1)
  have hplace : line - 1 - (root.first - 1) = line - root.first := by omega
  rw [typesAt?, if_neg hne, ofRoot, List.getElem?_append_right (by rw [List.length_replicate]; omega),
    List.length_replicate, hplace, ofScope_deepest h]

theorem typesAt?_ofRoot_of_lt {root : Scope} {line : Nat} (hline : 1 ≤ line) (h : line < root.first) :
    (ofRoot root).typesAt? line = some [] := by
  have hne : line ≠ 0 := Nat.ne_of_gt hline
  have hlt : line - 1 < root.first - 1 := by omega
  rw [typesAt?, if_neg hne, ofRoot, List.getElem?_append_left (by rw [List.length_replicate]; exact hlt),
    List.getElem?_replicate, if_pos hlt]

end TypeTable
end TypeWatch
