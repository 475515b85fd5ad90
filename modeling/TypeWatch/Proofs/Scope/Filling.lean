import TypeWatch.Proofs.Scope.Deepest

/-! # Tables that are filled in place

A table can also be filled line by line: each record of a scope changes the entries of its lines, and each line of an
inner scope is copied to its place if the outer one has it. Line numbers have 32 bits, and the place of a line is its
distance from the first one (`Filling`). No sum, difference or index goes out of its range then, and the table is the
same (`TypeTable.ofRoot_deepest`). -/
namespace TypeWatch
set_option autoImplicit false

/-- What a record makes known on a line on which it holds. -/
def TypeRecord.entered (r : TypeRecord) (types : LineTypes) : LineTypes :=
  match r.type with
  | some type => types.declare r.name type
  | none => types.mention r.name

theorem Scope.applyRecord_eq (line : Nat) (types : LineTypes) (r : TypeRecord) :
    applyRecord line types r = if r.first ≤ line ∧ line ≤ r.last then r.entered types else types := rfl

namespace Filling

/-! ## Line numbers -/

/-- The last number of 32 bits. -/
def maxLine : Nat := 4294967295

def plus? (a b : Nat) : Option Nat := if a + b ≤ maxLine then some (a + b) else none

def minus? (a b : Nat) : Option Nat := if b ≤ a then some (a - b) else none

/-- The scopes in a tree begin and end at numbers below the last one. -/
def Bounded (root : Scope) : Prop := ∀ s, root.Has s → s.first < maxLine ∧ s.last < maxLine

theorem bounded_iff {s : Scope} : Bounded s ↔ (s.first < maxLine ∧ s.last < maxLine) ∧ ∀ c ∈ s.children, Bounded c := by
  refine ⟨fun h => ⟨h s .root, fun c hc d hd => h d (.child hc hd)⟩, ?_⟩
  rintro ⟨hs, hchildren⟩ d (_ | ⟨hc, hd⟩)
  · exact hs
  · exact hchildren _ hc d hd

theorem Bounded.child {s c : Scope} (h : Bounded s) (hc : c ∈ s.children) : Bounded c :=
  (bounded_iff.mp h).2 c hc

/-! ## Loops -/

/-- Changes the entry of a line, in lines that begin at the line `first`. -/
def change? (first : Nat) (f : LineTypes → LineTypes) (lines : List LineTypes) (line : Nat) :
    Option (List LineTypes) := do
  let i ← minus? line first
  if i < lines.length then some (lines.modify i f) else none

def size? (s : Scope) : Option Nat :=
  if s.last < s.first then some 0 else do plus? (← minus? s.last s.first) 1

/-- Enters a record on those of its lines that the scope has. -/
def enter? (s : Scope) (lines : List LineTypes) (r : TypeRecord) : Option (List LineTypes) :=
  let start := max r.first s.first
  let stop := min r.last s.last
  (List.range' start (stop + 1 - start)).foldlM (change? s.first r.entered) lines

def ownTypes? (s : Scope) : Option (List LineTypes) := do
  s.records.foldlM (enter? s) (List.replicate (← size? s) [])

/-- Copies an entry to its place in the lines from `first` to `last`, if it has one there. The entry comes from
lines that begin at the line `start`. -/
def copy? (first last start : Nat) (lines : List LineTypes) (entry : LineTypes × Nat) : Option (List LineTypes) := do
  let line ← plus? start (entry.2 % (maxLine + 1))
  if first ≤ line ∧ line ≤ last then change? first (fun _ => entry.1) lines line else some lines

mutual

def ofScope? : Scope → Option (List LineTypes)
  | .mk first last records children => do
    copyAll? first last (← ownTypes? (.mk first last records [])) children

def copyAll? (first last : Nat) (lines : List LineTypes) : List Scope → Option (List LineTypes)
  | [] => some lines
  | child :: rest => do
    let lines ← (← ofScope? child).zipIdx.foldlM (copy? first last child.first) lines
    copyAll? first last lines rest

end

def ofRoot? (root : Scope) : Option TypeTable := do
  return ⟨List.replicate (root.first - 1) [] ++ (← ofScope? root)⟩

/-! ## Runs of the loops -/

section Runs

variable {first : Nat} {lines : List LineTypes}

theorem change?_eq {line : Nat} (f : LineTypes → LineTypes) (hfirst : first ≤ line)
    (hlast : line < first + lines.length) :
    change? first f lines line = some (lines.mapIdx fun i types => if first + i = line then f types else types) := by
  have hindex : line - first < lines.length := by omega
  have hmodify : lines.modify (line - first) f =
      lines.mapIdx fun i types => if first + i = line then f types else types := by
    refine List.ext_getElem (by simp) fun i hi _ => ?_
    rw [List.getElem_modify, List.getElem_mapIdx]
    refine if_congr ?_ rfl rfl
    omega
  simp [change?, minus?, hfirst, hindex, hmodify]

theorem size?_eq {s : Scope} (h : s.last < maxLine) : size? s = some s.size := by
  unfold size? Scope.size
  by_cases hempty : s.last < s.first
  · rw [if_pos hempty, show s.last + 1 - s.first = 0 by omega]
  · have hlines : minus? s.last s.first = some (s.last - s.first) := if_pos (Nat.not_lt.mp hempty)
    have hsum : plus? (s.last - s.first) 1 = some (s.last - s.first + 1) := if_pos (by omega)
    rw [if_neg hempty, show s.last + 1 - s.first = s.last - s.first + 1 by omega, hlines]
    exact hsum

/-- A change of the lines in their places leaves them if it leaves each. -/
theorem mapIdx_fixed {f : Nat → LineTypes → LineTypes} (h : ∀ i < lines.length, ∀ types, f i types = types) :
    lines.mapIdx f = lines := by
  refine List.ext_getElem List.length_mapIdx fun i _ hi => ?_
  rw [List.getElem_mapIdx, h i hi]

/-- A loop over lines that are all there changes the entry of each. -/
theorem foldlM_change? (f : LineTypes → LineTypes) {start count : Nat} (hfirst : first ≤ start)
    (hthere : ∀ line, start ≤ line → line < start + count → line < first + lines.length) :
    (List.range' start count).foldlM (change? first f) lines = some (lines.mapIdx fun i types =>
      if start ≤ first + i ∧ first + i < start + count then f types else types) := by
  induction count generalizing start lines with
  | zero =>
    refine congrArg some (mapIdx_fixed fun i _ types => if_neg ?_).symm
    omega
  | succ count ih =>
    have hnext : ∀ line, start + 1 ≤ line → line < start + 1 + count → line < first + lines.length :=
      fun line hle hlt => hthere line (by omega) (by omega)
    rw [List.range'_succ, List.foldlM_cons, change?_eq f hfirst (hthere start (by omega) (by omega))]
    refine (ih (by omega) (by rwa [List.length_mapIdx])).trans (congrArg some ?_)
    rw [List.mapIdx_mapIdx]
    refine List.mapIdx_eq_mapIdx_iff.mpr fun i _ => ?_
    simp only [Function.comp_apply]
    by_cases hhere : first + i = start
    · rw [if_pos hhere, if_neg (by omega), if_pos (by omega)]
    · rw [if_neg hhere]
      refine if_congr ?_ rfl rfl
      omega

theorem enter?_eq {s : Scope} (hlength : lines.length = s.size) (r : TypeRecord) :
    enter? s lines r = some (lines.mapIdx fun i types => Scope.applyRecord (s.first + i) types r) := by
  rw [Scope.size] at hlength
  rw [enter?, foldlM_change? r.entered (Nat.le_max_right r.first s.first) fun line hle hlt => by omega]
  refine congrArg some (List.mapIdx_eq_mapIdx_iff.mpr fun i hi => ?_)
  rw [Scope.applyRecord_eq]
  refine if_congr ?_ rfl rfl
  omega

theorem foldlM_enter? {s : Scope} (hlength : lines.length = s.size) (records : List TypeRecord) :
    records.foldlM (enter? s) lines =
      some (lines.mapIdx fun i types => records.foldl (Scope.applyRecord (s.first + i)) types) := by
  induction records generalizing lines with
  | nil => exact congrArg some (mapIdx_fixed fun _ _ _ => rfl).symm
  | cons r records ih =>
    rw [List.foldlM_cons, enter?_eq hlength]
    refine (ih (by rw [List.length_mapIdx, hlength])).trans ?_
    rw [List.mapIdx_mapIdx]
    rfl

theorem ownTypes?_eq {s : Scope} (h : s.last < maxLine) : ownTypes? s = some s.ownTypes := by
  rw [ownTypes?, size?_eq h]
  refine (foldlM_enter? List.length_replicate s.records).trans (congrArg some (List.ext_getElem? fun i => ?_))
  rw [Scope.ownTypes, List.getElem?_mapIdx, List.getElem?_map]
  by_cases hi : i < s.size
  · rw [List.getElem?_range hi, List.getElem?_replicate, if_pos hi]
    rfl
  · have hle : s.size ≤ i := Nat.not_lt.mp hi
    simp [hle]

/-- A loop over inner lines lays them over the outer ones. -/
theorem foldlM_copy? {last start offset : Nat} {inner : List LineTypes} (hlength : lines.length = last + 1 - first)
    (hbound : start + offset + inner.length ≤ maxLine + 1) :
    (inner.zipIdx offset).foldlM (copy? first last start) lines =
      some (TypeTable.overlay first lines (start + offset) inner) := by
  induction inner generalizing offset lines with
  | nil =>
    refine congrArg some (mapIdx_fixed fun i _ types => ?_).symm
    simp
  | cons types inner ih =>
    rw [List.length_cons] at hbound
    have hstep : copy? first last start lines (types, offset) =
        some (lines.mapIdx fun i old => if first + i = start + offset then types else old) := by
      have hwhole : offset % (maxLine + 1) = offset := Nat.mod_eq_of_lt (by omega)
      have hsum : start + offset ≤ maxLine := by omega
      rw [copy?, plus?, hwhole, if_pos hsum]
      by_cases hin : first ≤ start + offset ∧ start + offset ≤ last
      · have hthere : start + offset < first + lines.length := by omega
        simp only [Option.bind_eq_bind, Option.bind_some, if_pos hin]
        exact change?_eq _ hin.1 hthere
      · simp only [Option.bind_eq_bind, Option.bind_some, if_neg hin]
        refine congrArg some (mapIdx_fixed fun i hi old => if_neg ?_).symm
        omega
    rw [List.zipIdx_cons, List.foldlM_cons, hstep]
    refine (ih (by rw [List.length_mapIdx, hlength]) (by omega)).trans (congrArg some ?_)
    rw [TypeTable.overlay, TypeTable.overlay, List.mapIdx_mapIdx]
    refine List.mapIdx_eq_mapIdx_iff.mpr fun i _ => ?_
    simp only [Function.comp_apply]
    by_cases hhere : first + i = start + offset
    · rw [if_pos hhere, if_pos (by omega), if_neg (by omega), hhere, Nat.sub_self]
      rfl
    · rw [if_neg hhere]
      by_cases hbefore : first + i < start + offset
      · rw [if_pos hbefore, if_pos (by omega)]
      · have hplace : first + i - (start + offset) = first + i - (start + (offset + 1)) + 1 := by omega
        rw [if_neg hbefore, if_neg (by omega), hplace, List.getElem?_cons_succ]

end Runs

theorem copyAll?_eq {first last : Nat} {lines : List LineTypes} (hlength : lines.length = last + 1 - first)
    {cs : List Scope} (hlast : ∀ c ∈ cs, c.first < maxLine ∧ c.last < maxLine)
    (h : ∀ c ∈ cs, ofScope? c = some (TypeTable.ofScope c)) :
    copyAll? first last lines cs = some (TypeTable.overlayAll first lines cs) := by
  induction cs generalizing lines with
  | nil => rfl
  | cons c cs ih =>
    obtain ⟨hbound, hbounds⟩ := List.forall_mem_cons.mp hlast
    obtain ⟨hc, hcs⟩ := List.forall_mem_cons.mp h
    have hend : c.first + 0 + (TypeTable.ofScope c).length ≤ maxLine + 1 := by
      rw [TypeTable.length_ofScope, Scope.size]
      omega
    rw [copyAll?, hc]
    simp only [Option.bind_eq_bind, Option.bind_some, foldlM_copy? hlength hend]
    refine ih ?_ hbounds hcs
    rw [TypeTable.overlay, List.length_mapIdx, hlength]

/-- The loops fill the lines of a scope without a failure. -/
theorem ofScope?_eq {s : Scope} (h : Bounded s) : ofScope? s = some (TypeTable.ofScope s) := by
  have hown : ownTypes? (.mk s.first s.last s.records []) = some s.ownTypes := ownTypes?_eq (h s .root).2
  have hlength : s.ownTypes.length = s.last + 1 - s.first := by
    rw [Scope.ownTypes, List.length_map, List.length_range, Scope.size]
  have hcopies : copyAll? s.first s.last s.ownTypes s.children = some (TypeTable.ofScope s) := by
    rw [TypeTable.ofScope_eq]
    exact copyAll?_eq hlength (fun c hc => h c (.child hc .root)) fun c hc => ofScope?_eq (h.child hc)
  obtain ⟨first, last, records, children⟩ := s
  rw [ofScope?]
  simp only [Option.bind_eq_bind]
  exact (congrArg (Option.bind · _) hown).trans hcopies
termination_by sizeOf s
decreasing_by exact Scope.sizeOf_child hc

theorem ofRoot?_eq {root : Scope} (h : Bounded root) : ofRoot? root = some (TypeTable.ofRoot root) := by
  rw [ofRoot?, ofScope?_eq h]
  rfl

end Filling

/-- The table of any tree of scopes. It ends with the root, and before the root nothing is known. On a line of the
root it says of each name what the records of the scope do at which the walk down to the line ends, and records
without a type may stand anywhere among these. It is filled without a number or an index out of range. -/
theorem TypeTable.ofRoot_deepest {root : Scope} (h : root.Built) (hfirst : 1 ≤ root.first)
    (hbounds : Filling.Bounded root) :
    (ofRoot root).lineEnd = max (root.first - 1) root.last ∧
      (∀ line, 1 ≤ line → line < root.first → (ofRoot root).typesAt? line = some []) ∧
      (∀ line, root.first ≤ line → line ≤ root.last → ∃ types, (ofRoot root).typesAt? line = some types ∧
        (∀ name, types.lookup name = TypeRecord.known line name (root.deepest line).records) ∧
        ∀ records, records.Perm (root.deepest line).records →
          records.filter (fun r => r.type.isSome) = (root.deepest line).typed →
          ∀ name, types.lookup name = TypeRecord.known line name records) ∧
      Filling.ofRoot? root = some (ofRoot root) := by
  refine ⟨lineEnd_ofRoot_eq_max hfirst, fun line => typesAt?_ofRoot_of_lt, ?_, Filling.ofRoot?_eq hbounds⟩
  intro line hstart hend
  have hcovers : root.covers line = true := Scope.covers_iff.mpr ⟨hstart, hend⟩
  have hlast : line ≤ (root.deepest line).last := (Scope.covers_iff.mp (Scope.covers_deepest hcovers)).2
  have hknown := Scope.lookup_ownTypesAt (h.deepest line).last_of_record hlast
  refine ⟨_, typesAt?_ofRoot_deepest hfirst hcovers, hknown, fun records hperm htyped name => ?_⟩
  rw [hknown name, TypeRecord.known_congr hperm htyped]

/-! ## A tree with scopes that overlap -/

/-- A scope on the lines from 5 to 9, with one in it that has no lines. -/
def protrudingScope : Scope :=
  (((Scope.ofLines 5 9).add "y" none none).add "y" (some "str") (some 6)).addChild (Scope.ofLines 6 4)

/-- A root on the lines from 3 to 7. One of its children begins before it, the other one overlaps the first and ends
behind the root. -/
def overlappingTree : Scope :=
  let early := (Scope.ofLines 1 5).add "x" (some "int") (some 2)
  (((Scope.ofLines 3 7).add "z" (some "bytes") (some 1)).addChild early).addChild protrudingScope

theorem overlappingTree_built : overlappingTree.Built :=
  .addChild (.addChild (.add (.ofLines 3 7) _ _ _) (.add (.ofLines 1 5) _ _ _))
    (.addChild (.add (.add (.ofLines 5 9) _ _ _) _ _ _) (.ofLines 6 4))

theorem overlappingTree_bounded : Filling.Bounded overlappingTree := by
  have hleaf : ∀ s : Scope, s.first < Filling.maxLine ∧ s.last < Filling.maxLine → s.children = [] →
      Filling.Bounded s := by
    intro s hs hnone
    exact Filling.bounded_iff.mpr ⟨hs, hnone ▸ List.forall_mem_nil _⟩
  have hprotruding : Filling.Bounded protrudingScope :=
    Filling.bounded_iff.mpr ⟨by decide, List.forall_mem_singleton.mpr (hleaf _ (by decide) rfl)⟩
  exact Filling.bounded_iff.mpr ⟨by decide,
    List.forall_mem_cons.mpr ⟨hleaf _ (by decide) rfl, List.forall_mem_singleton.mpr hprotruding⟩⟩

theorem deepest_overlappingTree : overlappingTree.deepest 6 = protrudingScope :=
  (Scope.deepest_of_some rfl).trans (Scope.deepest_of_none rfl)

theorem TypeTable.ofRoot_overlappingTree : (ofRoot overlappingTree).lineEnd = 7 ∧
    (ofRoot overlappingTree).typesAt? 2 = some [] ∧
    (∃ types, (ofRoot overlappingTree).typesAt? 6 = some types ∧ types.lookup "y" = some (some "str") ∧
      types.lookup "z" = none) ∧
    Filling.ofRoot? overlappingTree = some (ofRoot overlappingTree) := by
  obtain ⟨hend, hbefore, hlines, hloops⟩ :=
    ofRoot_deepest overlappingTree_built (by decide) overlappingTree_bounded
  obtain ⟨types, htypes, hknown, -⟩ := hlines 6 (by decide) (by decide)
  rw [deepest_overlappingTree] at hknown
  refine ⟨hend, hbefore 2 (by decide) (by decide), ⟨types, htypes, ?_, ?_⟩, hloops⟩
  · rw [hknown]
    decide
  · rw [hknown]
    decide

end TypeWatch
