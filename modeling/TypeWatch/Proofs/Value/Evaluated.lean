import Mathlib.Data.Nat.Init
import TypeWatch.Proofs.Token.Order
import TypeWatch.Proofs.Value.Distinct
import TypeWatch.Value.Literal

/-! # How literals are evaluated

What a literal stands for is put together from what its parts stand for (`Literal.Evaluates`). So the sets and
dictionaries in it have hashable elements and keys, and none of them twice (`Literal.wellFormed_of_value`). -/
namespace TypeWatch
set_option autoImplicit false

/-! ## Lists one by one -/

section Lists

variable {α β : Type} {R S : α → β → Prop} {xs : List α} {ys : List β}

theorem exists_left_of_forall₂ (h : List.Forall₂ R xs ys) {y : β} (hy : y ∈ ys) : ∃ x ∈ xs, R x y := by
  induction h with
  | nil => exact absurd hy List.not_mem_nil
  | @cons x y' xs ys hxy _ ih =>
    rcases List.mem_cons.mp hy with rfl | hy
    · exact ⟨x, List.mem_cons_self, hxy⟩
    · obtain ⟨x', hx', hR⟩ := ih hy
      exact ⟨x', List.mem_cons_of_mem x hx', hR⟩

theorem exists_right_of_forall₂ (h : List.Forall₂ R xs ys) {x : α} (hx : x ∈ xs) : ∃ y ∈ ys, R x y :=
  exists_left_of_forall₂ h.flip hx

theorem forall₂_imp_of_mem (h : List.Forall₂ R xs ys) (himp : ∀ x ∈ xs, ∀ y, R x y → S x y) :
    List.Forall₂ S xs ys :=
  ((List.forall₂_and_left xs ys).mpr ⟨fun _ hx => hx, h⟩).imp fun x y hxy => himp x hxy.1 y hxy.2

end Lists

/-! ## Values -/

namespace Value

/-- Elements of a set and keys of a dictionary are hashable. -/
def Content.Hashed : Content → Prop
  | elements items => ∀ v ∈ items, v.isHashable = true
  | entries es => ∀ e ∈ es, e.1.isHashable = true
  | _ => True

/-- The elements of each set that occurs in a value are hashable and none equals a later one, and so are the keys of
each dictionary. -/
def WellFormed : Value → Prop := Throughout fun u => u.content.Hashed ∧ u.content.Apart

theorem WellFormed.keysApart {v : Value} (h : v.WellFormed) : v.KeysApart := fun u hu => (h u hu).2

theorem wellFormed_of_members {v : Value} (h : v.content.members = []) : v.WellFormed := by
  refine throughout_iff.mpr ⟨?_, fun p hp => absurd hp (h ▸ List.not_mem_nil)⟩
  cases hv : v.content with
  | number n => exact ⟨trivial, trivial⟩
  | ordered head members => exact ⟨trivial, trivial⟩
  | elements items =>
    obtain rfl : items = [] := by rwa [hv] at h
    exact ⟨fun _ hp => absurd hp List.not_mem_nil, .nil⟩
  | entries es =>
    obtain rfl : es = [] := by rw [hv] at h; exact List.map_eq_nil_iff.mp (List.append_eq_nil_iff.mp h).1
    exact ⟨fun _ hp => absurd hp List.not_mem_nil, .nil⟩

theorem wellFormed_setOf {items : List Value} (hhashable : ∀ v ∈ items, v.isHashable = true)
    (h : ∀ v ∈ items, v.WellFormed) : (setOf items).WellFormed :=
  throughout_setOf ⟨fun v hv => hhashable v (mem_of_mem_distinct hv), pairwise_distinct items⟩ h

theorem wellFormed_dictOf {entries : List (Value × Value)} (hhashable : ∀ k ∈ entries.map Prod.fst, k.isHashable = true)
    (h : ∀ e ∈ entries, e.1.WellFormed ∧ e.2.WellFormed) : (dictOf entries).WellFormed := by
  have hkeys := keys_dictOf entries
  refine throughout_dictOf ⟨fun e he => ?_, ?_⟩ h
  · have hkey : e.1 ∈ distinct (entries.map Prod.fst) := hkeys ▸ List.mem_map_of_mem he
    exact hhashable e.1 (mem_of_mem_distinct hkey)
  · exact List.pairwise_map.mp (hkeys ▸ pairwise_distinct (entries.map Prod.fst))

end Value

/-! ## One step -/

/-- Whether an expression is written with elements or entries. -/
def Expr.isDisplay : Expr → Bool
  | .list _ _ | .tuple _ _ | .set _ _ | .dict _ _ => true
  | _ => false

namespace Literal

variable {e : Expr} {v : Value}

theorem values_eq_ok {es : List Expr} {vs : List Value} :
    values es = .ok vs ↔ List.Forall₂ (fun e v => value e = .ok v) es vs := by
  induction es generalizing vs with
  | nil => cases vs <;> simp [values]
  | cons e es ih =>
    rw [values]
    cases he : value e with
    | error err => cases vs <;> simp [bind, Except.bind, he]
    | ok v =>
      cases hes : values es with
      | error err => cases vs <;> simp [bind, Except.bind, he, ← ih, hes]
      | ok rest => cases vs <;> simp [bind, Except.bind, pure, Except.pure, he, ← ih, hes]

theorem hashable_eq_ok {items : List Value} : hashable items = .ok () ↔ ∀ v ∈ items, v.isHashable = true := by
  rw [hashable]
  cases hfind : items.find? fun v => !v.isHashable with
  | some v =>
    have hv := List.find?_some hfind
    refine iff_of_false (by rintro ⟨⟩) fun hall => ?_
    rw [hall v (List.mem_of_find?_eq_some hfind)] at hv
    exact Bool.false_ne_true hv
  | none => simpa using hfind

/-- The entries of a dictionary, with keys that are hashable. -/
theorem pairs_of_entries {whole : Expr} {es : List Entry} {written : List (Value × Value)}
    (h : entries whole es = .ok written) :
    ∃ pairs : List (Expr × Expr), es = pairs.map (fun p => .pair p.1 p.2) ∧
      List.Forall₂ (fun p w => value p.1 = .ok w.1 ∧ value p.2 = .ok w.2) pairs written ∧
      ∀ k ∈ written.map Prod.fst, k.isHashable = true := by
  induction es generalizing written with
  | nil =>
    rw [entries] at h
    cases h
    exact ⟨[], rfl, .nil, fun _ hk => absurd hk List.not_mem_nil⟩
  | cons entry es ih =>
    cases entry with
    | unpack e => cases h
    | pair k w =>
      rw [entries] at h
      obtain ⟨key, hkey, h⟩ := exists_of_bind_ok h
      obtain ⟨_, hhashable, h⟩ := exists_of_bind_ok h
      obtain ⟨item, hitem, h⟩ := exists_of_bind_ok h
      obtain ⟨rest, hrest, h⟩ := exists_of_bind_ok h
      cases h
      obtain ⟨pairs, rfl, hpairs, hkeys⟩ := ih hrest
      refine ⟨(k, w) :: pairs, rfl, .cons ⟨hkey, hitem⟩ hpairs, List.forall_mem_cons.mpr ⟨?_, hkeys⟩⟩
      exact hashable_eq_ok.mp hhashable key List.mem_cons_self

/-- How what an expression stands for is put together from what its parts stand for. -/
inductive Evaluates : Expr → Value → Prop
  | plain {e : Expr} {v : Value} (hplain : e.isDisplay = false) (hmembers : v.content.members = []) : Evaluates e v
  | list {s : Span} {es : List Expr} {vs : List Value} (h : List.Forall₂ (fun e v => value e = .ok v) es vs) :
    Evaluates (.list s es) (.list vs)
  | tuple {s : Span} {es : List Expr} {vs : List Value} (h : List.Forall₂ (fun e v => value e = .ok v) es vs) :
    Evaluates (.tuple s es) (.tuple vs)
  | set {s : Span} {es : List Expr} {vs : List Value} (h : List.Forall₂ (fun e v => value e = .ok v) es vs)
    (hhashable : ∀ v ∈ vs, v.isHashable = true) : Evaluates (.set s es) (Value.setOf vs)
  | dict {s : Span} {pairs : List (Expr × Expr)} {written : List (Value × Value)}
    (h : List.Forall₂ (fun p w => value p.1 = .ok w.1 ∧ value p.2 = .ok w.2) pairs written)
    (hhashable : ∀ k ∈ written.map Prod.fst, k.isHashable = true) :
    Evaluates (.dict s (pairs.map fun p => .pair p.1 p.2)) (Value.dictOf written)

theorem members_of_integerValue {n : Int} (h : integerValue? n = some v) : v.content.members = [] := by
  rw [integerValue?] at h
  split at h
  · cases h
    rfl
  · cases h

theorem members_of_decimalInteger {cs : List Char} (h : decimalInteger? cs = some v) : v.content.members = [] := by
  rw [decimalInteger?] at h
  split at h
  · cases h
  · obtain ⟨n, -, hn⟩ := Option.bind_eq_some_iff.mp h
    exact members_of_integerValue hn

theorem members_of_plainNumber {cs : List Char} (h : plainNumber? cs = some v) : v.content.members = [] := by
  rw [plainNumber?] at h
  split at h
  · obtain ⟨n, -, hn⟩ := Option.bind_eq_some_iff.mp h
    exact members_of_integerValue hn
  · split at h
    · obtain ⟨x, -, rfl⟩ := Option.map_eq_some_iff.mp h
      rfl
    · split at h
      · obtain ⟨x, -, rfl⟩ := Option.map_eq_some_iff.mp h
        rfl
      · exact members_of_decimalInteger h

theorem members_of_constant {c : Constant} (h : constant e c = .ok v) : v.content.members = [] := by
  cases c with
  | number literal =>
    rw [constant, number] at h
    split at h
    · rename_i hv
      cases h
      exact members_of_plainNumber hv
    · cases h
  | bytes text =>
    rw [constant] at h
    split at h
    · cases h
      rfl
    · cases h
  | ellipsis => cases h
  | formatString text => cases h
  | noneWord | trueWord | falseWord | string text =>
    cases h
    rfl

theorem members_of_signed {op : UnaryOp} {w : Value} (h : signed e op w = .ok v) : v.content.members = [] := by
  unfold signed at h
  split at h
  · cases h; rfl
  · cases h; rfl
  · cases h; rfl
  · split at h
    · cases h
    · cases h; rfl
  · cases h; rfl
  · cases h; rfl
  · cases h

theorem members_of_complexSum {re : Float} {op : BinaryOp} {w : Value} (h : complexSum e re op w = .ok v) :
    v.content.members = [] := by
  unfold complexSum at h
  split at h
  · split at h
    · cases h; rfl
    · cases h; rfl
    · cases h
  · cases h

theorem evaluates_of_value (h : value e = .ok v) : Evaluates e v := by
  cases e with
  | constant s c => exact .plain rfl (members_of_constant h)
  | list s es =>
    rw [value] at h
    obtain ⟨vs, hvs, h⟩ := exists_of_bind_ok h
    cases h
    exact .list (values_eq_ok.mp hvs)
  | tuple s es =>
    rw [value] at h
    obtain ⟨vs, hvs, h⟩ := exists_of_bind_ok h
    cases h
    exact .tuple (values_eq_ok.mp hvs)
  | set s es =>
    rw [value] at h
    obtain ⟨vs, hvs, h⟩ := exists_of_bind_ok h
    obtain ⟨_, hhashable, h⟩ := exists_of_bind_ok h
    cases h
    exact .set (values_eq_ok.mp hvs) (hashable_eq_ok.mp hhashable)
  | dict s es =>
    rw [value] at h
    obtain ⟨written, hwritten, h⟩ := exists_of_bind_ok h
    cases h
    obtain ⟨pairs, rfl, hpairs, hhashable⟩ := pairs_of_entries hwritten
    exact .dict hpairs hhashable
  | call s callee arguments =>
    rw [value.eq_def] at h
    dsimp only at h
    split at h
    · cases h
      exact .plain rfl rfl
    · cases h
  | unary s op operand =>
    rw [value] at h
    obtain ⟨w, -, h⟩ := exists_of_bind_ok h
    exact .plain rfl (members_of_signed h)
  | binary s left op right =>
    rw [value] at h
    obtain ⟨w, -, h⟩ := exists_of_bind_ok h
    obtain ⟨re, -, h⟩ := exists_of_bind_ok h
    obtain ⟨w', -, h⟩ := exists_of_bind_ok h
    exact .plain rfl (members_of_complexSum h)
  | _ => cases h

/-! ## Well-formed values -/

theorem entry_mem_parts {s : Span} {pairs : List (Expr × Expr)} {p : Expr × Expr} (hp : p ∈ pairs) :
    p.1 ∈ (Expr.dict s (pairs.map fun p => .pair p.1 p.2)).children ∧
      p.2 ∈ (Expr.dict s (pairs.map fun p => .pair p.1 p.2)).children := by
  have hentry : Entry.pair p.1 p.2 ∈ pairs.map fun p => Entry.pair p.1 p.2 := List.mem_map_of_mem hp
  exact ⟨List.mem_flatMap.mpr ⟨_, hentry, List.mem_cons_self⟩,
    List.mem_flatMap.mpr ⟨_, hentry, List.mem_cons_of_mem _ List.mem_cons_self⟩⟩

/-- What a literal stands for is well-formed at every depth. -/
theorem wellFormed_of_value {e : Expr} {v : Value} (h : value e = .ok v) : v.WellFormed := by
  cases evaluates_of_value h with
  | plain _ hmembers => exact Value.wellFormed_of_members hmembers
  | @list s es vs hvs | @tuple s es vs hvs =>
    refine Value.throughout_iff.mpr ⟨⟨trivial, trivial⟩, fun p hp => ?_⟩
    obtain ⟨x, hx, hxp⟩ := exists_left_of_forall₂ hvs hp
    have := Expr.sizeOf_child (e := .list s es) hx
    exact wellFormed_of_value hxp
  | @set s es vs hvs hhashable =>
    refine Value.wellFormed_setOf hhashable fun p hp => ?_
    obtain ⟨x, hx, hxp⟩ := exists_left_of_forall₂ hvs hp
    have := Expr.sizeOf_child (e := .set s es) hx
    exact wellFormed_of_value hxp
  | @dict s pairs written hwritten hhashable =>
    refine Value.wellFormed_dictOf hhashable fun w hw => ?_
    obtain ⟨p, hp, hkey, hvalue⟩ := exists_left_of_forall₂ hwritten hw
    have := Expr.sizeOf_child (entry_mem_parts (s := s) hp).1
    have := Expr.sizeOf_child (entry_mem_parts (s := s) hp).2
    exact ⟨wellFormed_of_value hkey, wellFormed_of_value hvalue⟩
termination_by sizeOf e

end Literal

theorem Value.ofText_eq_value {text : String} {e : Expr} (h : Expr.ofText text = .ok e) :
    Value.ofText text = Literal.value e := by
  rw [Value.ofText, h]
  rfl

end TypeWatch
