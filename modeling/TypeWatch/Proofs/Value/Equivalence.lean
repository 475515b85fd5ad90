import TypeWatch.Proofs.Value.Distinct
import TypeWatch.Proofs.Value.Nearest

/-! # The laws of equality

Equality of values is reflexive, symmetric and transitive where it is so for the numbers that occur in them. Of two sets
with equally many elements only those of the first are looked for in the second, and likewise of dictionaries. The
other direction holds since no two elements of a set are equal to the same value (`exists_of_length_le`). -/
namespace TypeWatch
set_option autoImplicit false

/-! ## Lists without doubles -/

section Injection

variable {α β : Type} {R : α → β → Prop} {xs : List α} {ys : List β}

theorem exists_among_others {y : β} {before after : List β} (h : ∀ x ∈ xs, ∃ y' ∈ before ++ y :: after, R x y')
    (hnot : ∀ x ∈ xs, ¬ R x y) : ∀ x ∈ xs, ∃ y' ∈ before ++ after, R x y' := by
  intro x hx
  obtain ⟨y', hy', hxy'⟩ := h x hx
  rcases List.mem_cons.mp (List.perm_middle.mem_iff.mp hy') with rfl | hy'
  · exact absurd hxy' (hnot x hx)
  · exact ⟨y', hy', hxy'⟩

/-- No two elements belong to the same one, if that makes elements equal and no two are. -/
theorem single_of_apart {E : α → α → Bool} (hapart : xs.Pairwise fun x x' => E x x' = false)
    (h : ∀ x ∈ xs, ∀ x' ∈ xs, ∀ y ∈ ys, R x y → R x' y → E x x' = true) :
    xs.Pairwise fun x x' => ∀ y ∈ ys, R x y → ¬ R x' y := by
  refine hapart.imp_of_mem fun {x x'} hx hx' hne y hy hxy hxy' => ?_
  exact Bool.false_ne_true (hne.symm.trans (h x hx x' hx' y hy hxy hxy'))

theorem mem_of_others {y y' : β} {before after : List β} (h : y' ∈ before ++ after) :
    y' ∈ before ++ y :: after :=
  List.perm_middle.mem_iff.mpr (List.mem_cons_of_mem y h)

/-- If each element of a list belongs to one of another list, and no two to the same one, then the other list is
not shorter. -/
theorem length_le_of_apart (hapart : xs.Pairwise fun x x' => ∀ y ∈ ys, R x y → ¬ R x' y)
    (h : ∀ x ∈ xs, ∃ y ∈ ys, R x y) : xs.length ≤ ys.length := by
  induction xs generalizing ys with
  | nil => exact Nat.zero_le _
  | cons x xs ih =>
    obtain ⟨hx, hxs⟩ := List.pairwise_cons.mp hapart
    obtain ⟨⟨y, hy, hxy⟩, hrest⟩ := List.forall_mem_cons.mp h
    obtain ⟨before, after, rfl⟩ := List.append_of_mem hy
    have hothers := exists_among_others hrest fun x' hx' => hx x' hx' y hy hxy
    have hle := ih (hxs.imp fun hapart y' hy' => hapart y' (mem_of_others hy')) hothers
    simp only [List.length_append, List.length_cons] at hle ⊢
    omega

/-- If the other list is not longer either, then to each of its elements one belongs. -/
theorem exists_of_length_le (hapart : xs.Pairwise fun x x' => ∀ y ∈ ys, R x y → ¬ R x' y)
    (h : ∀ x ∈ xs, ∃ y ∈ ys, R x y) (hlength : ys.length ≤ xs.length) : ∀ y ∈ ys, ∃ x ∈ xs, R x y := by
  intro y hy
  by_contra hnone
  obtain ⟨before, after, rfl⟩ := List.append_of_mem hy
  have hothers := exists_among_others h fun x hx hxy => hnone ⟨x, hx, hxy⟩
  have hle := length_le_of_apart (hapart.imp fun hapart y' hy' => hapart y' (mem_of_others hy')) hothers
  simp only [List.length_append, List.length_cons] at hle hlength
  omega

end Injection

namespace Value

/-! ## Numbers -/

namespace Number

variable {l m n : Number}

/-- Numbers that are rounded or not whole. -/
def IsInexact : Number → Prop
  | bool _ | int _ => False
  | float _ | complex _ _ => True

instance : DecidablePred IsInexact
  | bool _ | int _ => isFalse id
  | float _ | complex _ _ => isTrue trivial

theorem sameParts_symm (h : m.sameParts n = true) : n.sameParts m = true := by
  rw [sameParts, Bool.and_eq_true] at h ⊢
  exact ⟨BEq.symm h.1, BEq.symm h.2⟩

theorem sameParts_trans (h : l.sameParts m = true) (h' : m.sameParts n = true) : l.sameParts n = true := by
  rw [sameParts, Bool.and_eq_true] at h h' ⊢
  exact ⟨BEq.trans h.1 h'.1, BEq.trans h.2 h'.2⟩

/-- Numbers are equal if their parts are. Integers have to be the same besides. -/
theorem same_iff : m.same n = true ↔ m.sameParts n = true ∧ ∀ j k, m = .int j → n = .int k → j = k := by
  cases m with
  | bool x =>
    cases n with
    | bool y =>
      have hparts : ∀ x y : Bool, (x == y) = (bool x).sameParts (bool y) := by decide
      simp [same, hparts]
    | _ => simp [same]
  | int j =>
    cases n with
    | int k =>
      refine ⟨fun h => ?_, ?_⟩
      · obtain rfl : j = k := eq_of_beq h
        have hzero : ((0.0 : Float) == 0.0) = true := by decide
        refine ⟨Bool.and_eq_true_iff.mpr ⟨nearestFloat_beq_self j, hzero⟩, fun j' k' hj hk => ?_⟩
        exact int.inj (hj.symm.trans hk)
      · rintro ⟨-, heq⟩
        exact beq_iff_eq.mpr (heq j k rfl rfl)
    | _ => simp [same]
  | _ => cases n <;> simp [same]

/-- An integer that is equal to a truth value is 0 or 1. -/
theorem eq_of_sameParts_bool {j : Int64} {b : Bool} (h : (int j).sameParts (bool b) = true) :
    j = if b then 1 else 0 := by
  have hpart : ∀ b : Bool, (bool b).parts.1 = nearestFloat (if b then 1 else 0) := by decide
  have hsmall : ∀ b : Bool, (if b then 1 else 0 : Int64).toInt.natAbs < 2 ^ 53 := by decide
  have hbeq : (nearestFloat j == nearestFloat (if b then 1 else 0)) = true := by
    rw [← hpart]
    exact (Bool.and_eq_true_iff.mp h).1
  exact (eq_of_nearestFloat_beq (hsmall b) (BEq.symm hbeq)).symm

theorem same_symm (h : m.same n = true) : n.same m = true := by
  rw [same_iff] at h ⊢
  exact ⟨sameParts_symm h.1, fun j k hj hk => (h.2 k j hk hj).symm⟩

/-- If one number is equal to two others, these are equal, unless they are integers that are rounded to it. -/
theorem same_trans (h : l.same m = true) (h' : m.same n = true)
    (hsame : ∀ j k, l = .int j → n = .int k → m.IsInexact → j = k) : l.same n = true := by
  rw [same_iff] at h h' ⊢
  refine ⟨sameParts_trans h.1 h'.1, ?_⟩
  rintro j k rfl rfl
  cases m with
  | bool b => exact (eq_of_sameParts_bool h.1).trans (eq_of_sameParts_bool (sameParts_symm h'.1)).symm
  | int i => exact (h.2 j i rfl rfl).trans (h'.2 i k rfl rfl)
  | float x => exact hsame j k rfl rfl trivial
  | complex re im => exact hsame j k rfl rfl trivial

end Number

/-! ## Contents -/

section Lists

variable {α β γ : Type} {R : α → β → Prop} {S : β → γ → Prop} {T : α → γ → Prop} {R' : β → α → Prop}

theorem forall₂_trans {xs : List α} {ys : List β} {zs : List γ} (h : List.Forall₂ R xs ys)
    (h' : List.Forall₂ S ys zs) (htrans : ∀ x ∈ xs, ∀ y ∈ ys, ∀ z ∈ zs, R x y → S y z → T x z) :
    List.Forall₂ T xs zs := by
  induction h generalizing zs with
  | nil =>
    cases h'
    exact .nil
  | @cons x y xs ys hxy _ ih =>
    cases h' with
    | @cons _ z _ zs hyz h' =>
      refine .cons (htrans x List.mem_cons_self y List.mem_cons_self z List.mem_cons_self hxy hyz)
        (ih h' fun x' hx' y' hy' z' hz' => ?_)
      exact htrans x' (List.mem_cons_of_mem x hx') y' (List.mem_cons_of_mem y hy') z' (List.mem_cons_of_mem z hz')

theorem forall₂_symm {xs : List α} {ys : List β} (h : List.Forall₂ R xs ys)
    (hsymm : ∀ x ∈ xs, ∀ y ∈ ys, R x y → R' y x) : List.Forall₂ R' ys xs := by
  induction h with
  | nil => exact .nil
  | @cons x y xs ys hxy _ ih =>
    refine .cons (hsymm x List.mem_cons_self y List.mem_cons_self hxy) (ih fun x' hx' y' hy' => ?_)
    exact hsymm x' (List.mem_cons_of_mem x hx') y' (List.mem_cons_of_mem y hy')

end Lists

theorem key_mem {es : List (Value × Value)} {e : Value × Value} (he : e ∈ es) : e.1 ∈ (Content.entries es).members :=
  mem_members_entries.mpr ⟨e, he, Or.inl rfl⟩

theorem value_mem {es : List (Value × Value)} {e : Value × Value} (he : e ∈ es) : e.2 ∈ (Content.entries es).members :=
  mem_members_entries.mpr ⟨e, he, Or.inr rfl⟩

namespace Alike

variable {c c' c'' : Content}

theorem refl (hnumber : ∀ n, c = .number n → n.same n = true) (hmembers : ∀ p ∈ c.members, p.equals p = true) :
    Alike c c := by
  cases c with
  | number n => exact .number (hnumber n rfl)
  | ordered head xs => exact .ordered (List.forall₂_same.mpr hmembers)
  | elements xs => exact .elements rfl fun x hx => ⟨x, hx, hmembers x hx⟩
  | entries es =>
    exact .entries rfl fun e he => ⟨e, he, hmembers e.1 (key_mem he), hmembers e.2 (value_mem he)⟩

theorem trans (h : Alike c c') (h' : Alike c' c'')
    (hnumber : ∀ l m n, c = .number l → c' = .number m → c'' = .number n → l.same m = true → m.same n = true →
      l.same n = true)
    (hmembers : ∀ p ∈ c.members, ∀ q ∈ c'.members, ∀ r ∈ c''.members, p.equals q = true → q.equals r = true →
      p.equals r = true) : Alike c c'' := by
  cases h with
  | number h =>
    cases h' with
    | number h' => exact .number (hnumber _ _ _ rfl rfl rfl h h')
  | ordered h =>
    cases h' with
    | ordered h' => exact .ordered (forall₂_trans h h' hmembers)
  | elements hlength h =>
    cases h' with
    | elements hlength' h' =>
      refine .elements (hlength.trans hlength') fun x hx => ?_
      obtain ⟨y, hy, hxy⟩ := h x hx
      obtain ⟨z, hz, hyz⟩ := h' y hy
      exact ⟨z, hz, hmembers x hx y hy z hz hxy hyz⟩
  | entries hlength h =>
    cases h' with
    | entries hlength' h' =>
      refine .entries (hlength.trans hlength') fun e he => ?_
      obtain ⟨o, ho, hkey, hvalue⟩ := h e he
      obtain ⟨u, hu, hkey', hvalue'⟩ := h' o ho
      exact ⟨u, hu, hmembers _ (key_mem he) _ (key_mem ho) _ (key_mem hu) hkey hkey',
        hmembers _ (value_mem he) _ (value_mem ho) _ (value_mem hu) hvalue hvalue'⟩

theorem symm (h : Alike c c') (hapart : c.Apart)
    (hmembers : ∀ p ∈ c.members, ∀ q ∈ c'.members, p.equals q = true → q.equals p = true)
    (htrans : ∀ p ∈ c.members, ∀ q ∈ c'.members, ∀ r ∈ c.members, p.equals q = true → q.equals r = true →
      p.equals r = true) : Alike c' c := by
  cases h with
  | number h => exact .number (Number.same_symm h)
  | ordered h => exact .ordered (forall₂_symm h hmembers)
  | @elements xs ys hlength h =>
    -- no element of the second set has two of the first equal to it
    have hsingle := single_of_apart hapart fun x hx x' hx' y hy hxy hxy' =>
      htrans x hx y hy x' hx' hxy (hmembers x' hx' y hy hxy')
    refine .elements hlength.symm fun y hy => ?_
    obtain ⟨x, hx, hxy⟩ := exists_of_length_le hsingle h (Nat.le_of_eq hlength.symm) y hy
    exact ⟨x, hx, hmembers x hx y hy hxy⟩
  | @entries es os hlength h =>
    -- likewise for keys
    have hsingle : es.Pairwise fun e e' => ∀ o ∈ os, SameEntry e o → ¬ SameEntry e' o :=
      single_of_apart hapart fun e he e' he' o ho heo heo' =>
        htrans _ (key_mem he) _ (key_mem ho) _ (key_mem he') heo.1
          (hmembers _ (key_mem he') _ (key_mem ho) heo'.1)
    refine .entries hlength.symm fun o ho => ?_
    obtain ⟨e, he, heo⟩ := exists_of_length_le hsingle h (Nat.le_of_eq hlength.symm) o ho
    exact ⟨e, he, hmembers _ (key_mem he) _ (key_mem ho) heo.1, hmembers _ (value_mem he) _ (value_mem ho) heo.2⟩

end Alike

/-! ## Values -/

/-- Numbers on which equality is reflexive and transitive. -/
structure Number.Lawful (ns : Number → Prop) : Prop where
  refl : ∀ n, ns n → n.same n = true
  trans : ∀ l m n, ns l → ns m → ns n → l.same m = true → m.same n = true → l.same n = true

section Laws

variable {ns : Number → Prop}

theorem equals_refl (hns : Number.Lawful ns) {a : Value} (ha : a.NumbersIn ns) : a.equals a = true := by
  refine equals_iff.mpr (.refl (fun n hn => hns.refl n (ha a .self n (Content.number?_eq_some.mpr hn))) fun p hp => ?_)
  exact equals_refl hns (ha.member hp)
termination_by sizeOf a
decreasing_by exact sizeOf_member hp

theorem equals_trans_of (htrans : ∀ l m n, ns l → ns m → ns n → l.same m = true → m.same n = true → l.same n = true)
    {a b c : Value} (ha : a.NumbersIn ns) (hb : b.NumbersIn ns) (hc : c.NumbersIn ns) (h : a.equals b = true)
    (h' : b.equals c = true) : a.equals c = true := by
  refine equals_iff.mpr ((equals_iff.mp h).trans (equals_iff.mp h') ?_ fun p hp q hq r hr => ?_)
  · intro l m n hl hm hn
    exact htrans l m n (ha a .self l (Content.number?_eq_some.mpr hl))
      (hb b .self m (Content.number?_eq_some.mpr hm)) (hc c .self n (Content.number?_eq_some.mpr hn))
  · exact equals_trans_of htrans (ha.member hp) (hb.member hq) (hc.member hr)
termination_by sizeOf a
decreasing_by exact sizeOf_member hp

theorem equals_symm_of (htrans : ∀ l m n, ns l → ns m → ns n → l.same m = true → m.same n = true → l.same n = true)
    {a b : Value} (ha : a.NumbersIn ns) (hb : b.NumbersIn ns) (hkeys : a.KeysApart) (h : a.equals b = true) :
    b.equals a = true := by
  refine equals_iff.mpr ((equals_iff.mp h).symm (hkeys a .self) (fun p hp q hq => ?_) fun p hp q hq r hr => ?_)
  · exact equals_symm_of htrans (ha.member hp) (hb.member hq) (hkeys.member hp)
  · exact equals_trans_of htrans (ha.member hp) (hb.member hq) (ha.member hr)
termination_by sizeOf a
decreasing_by exact sizeOf_member hp

theorem equals_trans (hns : Number.Lawful ns) {a b c : Value} (ha : a.NumbersIn ns) (hb : b.NumbersIn ns)
    (hc : c.NumbersIn ns) (h : a.equals b = true) (h' : b.equals c = true) : a.equals c = true :=
  equals_trans_of hns.trans ha hb hc h h'

theorem equals_symm (hns : Number.Lawful ns) {a b : Value} (ha : a.NumbersIn ns) (hb : b.NumbersIn ns)
    (hkeys : a.KeysApart) (h : a.equals b = true) : b.equals a = true :=
  equals_symm_of hns.trans ha hb hkeys h

end Laws

/-! ## Values without floating-point numbers -/

/-- A value in which no floating-point and no complex number occurs. -/
def FloatFree : Value → Prop := NumbersIn fun n => ¬ n.IsInexact

instance (v : Value) : Decidable v.FloatFree := inferInstanceAs (Decidable (v.NumbersIn _))

theorem Number.lawful_exact : Lawful fun n => ¬ n.IsInexact where
  refl n hn := by
    cases n with
    | bool b => exact beq_self_eq_true b
    | int j => exact beq_self_eq_true j
    | float x => exact absurd trivial hn
    | complex re im => exact absurd trivial hn
  trans _ _ _ _ hm _ h h' := same_trans h h' fun _ _ _ _ hinexact => absurd hinexact hm

/-- Equality of values without floating-point numbers is an equivalence. For symmetry, no element of a set and no key
of a dictionary may be there twice. -/
theorem equals_equivalence :
    (∀ a : Value, a.FloatFree → a.equals a = true) ∧
      (∀ a b : Value, a.FloatFree → b.FloatFree → a.KeysApart → a.equals b = true → b.equals a = true) ∧
      ∀ a b c : Value, a.FloatFree → b.FloatFree → c.FloatFree → a.equals b = true → b.equals c = true →
        a.equals c = true := by
  refine ⟨fun a ha => ?_, fun a b ha hb hkeys => ?_, fun a b c ha hb hc => ?_⟩
  · exact equals_refl Number.lawful_exact ha
  · exact equals_symm Number.lawful_exact ha hb hkeys
  · exact equals_trans Number.lawful_exact ha hb hc

/-- A dictionary with a tuple and a number as keys. The tuple has a set in it. -/
def nestedKeys : Value :=
  dictOf [(tuple [frozensetOf [int 1, str "a", bool true], none], setOf [int 0, int 2]), (int 1, list [bool true])]

/-- An equal one, in another order and with truth values for some integers. -/
def reorderedKeys : Value :=
  dictOf [(bool true, list [int 1]), (tuple [frozensetOf [str "a", bool true], none], frozensetOf [int 2, bool false])]

def renewedKeys : Value :=
  dictOf [(int 1, none), (tuple [setOf [str "a", int 1], none], setOf [int 2, int 0]), (bool true, list [int 1])]

theorem equals_nestedKeys : nestedKeys.FloatFree ∧ nestedKeys.KeysApart ∧ reorderedKeys.FloatFree ∧
    renewedKeys.FloatFree ∧ nestedKeys.equals nestedKeys = true ∧ reorderedKeys.equals nestedKeys = true ∧
    nestedKeys.equals renewedKeys = true := by
  obtain ⟨hrefl, hsymm, htrans⟩ := equals_equivalence
  have hnested : nestedKeys.FloatFree := by decide +kernel
  have hkeys : nestedKeys.KeysApart := keysApart_dictOf (by decide +kernel)
  have hreordered : reorderedKeys.FloatFree := by decide +kernel
  have hrenewed : renewedKeys.FloatFree := by decide +kernel
  have hequal : nestedKeys.equals reorderedKeys = true := by decide +kernel
  have hequal' : reorderedKeys.equals renewedKeys = true := by decide +kernel
  exact ⟨hnested, hkeys, hreordered, hrenewed, hrefl _ hnested, hsymm _ _ hnested hreordered hkeys hequal,
    htrans _ _ _ hnested hreordered hrenewed hequal hequal'⟩

end Value
end TypeWatch
