import TypeWatch.Proofs.Value.Equivalence

/-! # The order in which sets are given

A set is made of values in some order, and of equal values the first one remains. Which order it is does not matter as
long as equality is transitive on the numbers in the values (`Value.equals_setOf_of_perm`). It is not where a
floating-point number is equal to two integers that are rounded to it (`Value.not_equals_setOf_rounded`), and that
takes integers of more than 53 binary digits (`Value.roundsApart_of_small`). -/
namespace TypeWatch.Value
set_option autoImplicit false

/-! ## Numbers -/

namespace Number

def IsNaN : Number → Prop
  | bool _ | int _ => False
  | float x => x.isNaN = true
  | complex re im => re.isNaN = true ∨ im.isNaN = true

instance : DecidablePred IsNaN
  | bool _ | int _ => isFalse id
  | float x => inferInstanceAs (Decidable (x.isNaN = true))
  | complex re im => inferInstanceAs (Decidable (re.isNaN = true ∨ im.isNaN = true))

theorem beq_self_of_not_isNaN {x : Float} (h : ¬ x.isNaN = true) : (x == x) = true := by
  rw [Float.isNaN_eq_decide_eq_nan, decide_eq_true_eq] at h
  exact Float.beq_self_iff.mpr h

theorem same_self {n : Number} (h : ¬ n.IsNaN) : n.same n = true := by
  have hzero : ((0.0 : Float) == 0.0) = true := by decide
  cases n with
  | bool b => exact beq_self_eq_true b
  | int j => exact beq_self_eq_true j
  | float x => exact Bool.and_eq_true_iff.mpr ⟨beq_self_of_not_isNaN h, hzero⟩
  | complex re im =>
    obtain ⟨hre, him⟩ := not_or.mp h
    exact Bool.and_eq_true_iff.mpr ⟨beq_self_of_not_isNaN hre, beq_self_of_not_isNaN him⟩

/-- None of the numbers is equal to two integers among them that are rounded to it. -/
def RoundApart (ns : Number → Prop) : Prop := ∀ n j k, ns n → ns (.int j) → ns (.int k) → n.IsInexact →
  n.same (.int j) = true → n.same (.int k) = true → j = k

theorem RoundApart.trans {ns : Number → Prop} (h : RoundApart ns) (l m n : Number) (hl : ns l) (hm : ns m) (hn : ns n)
    (hlm : l.same m = true) (hmn : m.same n = true) : l.same n = true := by
  refine same_trans hlm hmn fun j k hj hk hinexact => ?_
  rw [hj] at hl hlm
  rw [hk] at hn hmn
  exact h m j k hm hl hn hinexact (same_symm hlm) hmn

theorem RoundApart.lawful {ns : Number → Prop} (h : RoundApart ns) (hnan : ∀ n, ns n → ¬ n.IsNaN) : Lawful ns where
  refl n hn := same_self (hnan n hn)
  trans := h.trans

/-- Numbers that are no integers of more than 53 binary digits. -/
def IsSmall : Number → Prop
  | int j => j.toInt.natAbs < 2 ^ 53
  | _ => True

instance : DecidablePred IsSmall
  | int j => inferInstanceAs (Decidable (j.toInt.natAbs < 2 ^ 53))
  | bool _ | float _ | complex _ _ => isTrue trivial

/-- Small integers are not rounded. -/
theorem roundApart_of_small {ns : Number → Prop} (h : ∀ n, ns n → n.IsSmall) : RoundApart ns := by
  intro _ j k _ hj _ _ hnj hnk
  have hjn := Bool.and_eq_true_iff.mp (sameParts_symm (same_iff.mp hnj).1)
  have hnk' := Bool.and_eq_true_iff.mp (same_iff.mp hnk).1
  exact eq_of_nearestFloat_beq (h (.int j) hj) (BEq.trans hjn.1 hnk'.1)

end Number

/-- The numbers that occur in some values. -/
def NumberAmong (items : List Value) (n : Number) : Prop :=
  ∃ v ∈ items, ∃ u : Value, u.Within v ∧ n ∈ u.content.number?

theorem numbersIn_among {items : List Value} {v : Value} (hv : v ∈ items) : v.NumbersIn (NumberAmong items) :=
  fun u hu _ hn => ⟨v, hv, u, hu, hn⟩

theorem NumberAmong.of_numbersIn {items : List Value} {ns : Number → Prop} (h : ∀ v ∈ items, v.NumbersIn ns)
    {n : Number} (hn : NumberAmong items n) : ns n := by
  obtain ⟨v, hv, u, hu, hn⟩ := hn
  exact h v hv u hu n hn

/-! ## Sets -/

section Sets

variable {ns : Number → Prop} {xs ys : List Value}

/-- What remains of values belongs to what remains of more of them. -/
theorem exists_among_distinct (hns : Number.Lawful ns) (hsub : xs ⊆ ys) (hnumbers : ∀ v ∈ ys, v.NumbersIn ns)
    (hkeys : ∀ v ∈ ys, v.KeysApart) : ∀ v ∈ distinct xs, ∃ w ∈ distinct ys, v.equals w = true := by
  intro v hv
  have hvy : v ∈ ys := hsub (mem_of_mem_distinct hv)
  obtain ⟨w, hw, hwv⟩ := exists_mem_distinct (fun u hu => equals_refl hns (hnumbers u hu)) v hvy
  have hwy : w ∈ ys := mem_of_mem_distinct hw
  exact ⟨w, hw, equals_symm hns (hnumbers w hwy) (hnumbers v hvy) (hkeys w hwy) hwv⟩

theorem length_distinct_le (hns : Number.Lawful ns) (hsub : xs ⊆ ys) (hnumbers : ∀ v ∈ ys, v.NumbersIn ns)
    (hkeys : ∀ v ∈ ys, v.KeysApart) : (distinct xs).length ≤ (distinct ys).length := by
  refine length_le_of_apart ?_ (exists_among_distinct hns hsub hnumbers hkeys)
  refine single_of_apart (pairwise_distinct xs) fun v hv v' hv' w hw hvw hvw' => ?_
  have hvy : v ∈ ys := hsub (mem_of_mem_distinct hv)
  have hvy' : v' ∈ ys := hsub (mem_of_mem_distinct hv')
  have hwy : w ∈ ys := mem_of_mem_distinct hw
  have hback : w.equals v' = true := equals_symm hns (hnumbers v' hvy') (hnumbers w hwy) (hkeys v' hvy') hvw'
  exact equals_trans hns (hnumbers v hvy) (hnumbers w hwy) (hnumbers v' hvy') hvw hback

/-- A set does not depend on the order of the values that it is made of, as long as none of the numbers in them is
rounded and equal to two integers among them. -/
theorem equals_setOf_of_perm (hperm : xs.Perm ys) (hkeys : ∀ v ∈ xs, v.KeysApart)
    (hnan : ∀ v ∈ xs, v.NumbersIn fun n => ¬ n.IsNaN) (hround : Number.RoundApart (NumberAmong xs)) :
    (setOf xs).equals (setOf ys) = true := by
  have hns : Number.Lawful (NumberAmong xs) := hround.lawful fun n hn => hn.of_numbersIn hnan
  have hnumbers : ∀ v ∈ xs, v.NumbersIn (NumberAmong xs) := fun v hv => numbersIn_among hv
  have hnumbers' : ∀ v ∈ ys, v.NumbersIn (NumberAmong xs) := fun v hv => hnumbers v (hperm.mem_iff.mpr hv)
  have hkeys' : ∀ v ∈ ys, v.KeysApart := fun v hv => hkeys v (hperm.mem_iff.mpr hv)
  have hlength : (distinct xs).length = (distinct ys).length :=
    Nat.le_antisymm (length_distinct_le hns hperm.subset hnumbers' hkeys')
      (length_distinct_le hns hperm.symm.subset hnumbers hkeys)
  exact equals_iff.mpr (.elements hlength (exists_among_distinct hns hperm.subset hnumbers' hkeys'))

end Sets

/-- Numbers of all kinds that are equal in part, and a tuple and frozen sets with such numbers. -/
def mixedItems : List Value := [
  int 1, float 1.0, bool true, complex 2.0 0.0, int 2, float 0.5, tuple [int 1, float 0.0],
  tuple [float 1.0, bool false], frozensetOf [int 2, int 3], frozensetOf [float 3.0, complex 2.0 0.0]]

theorem equals_setOf_mixedItems : (∀ v ∈ mixedItems, v.isHashable = true) ∧
    (setOf mixedItems).equals (setOf mixedItems.reverse) = true := by
  have hkeys : ∀ v ∈ mixedItems, v.KeysApart := by decide +kernel
  have hnan : ∀ v ∈ mixedItems, v.NumbersIn fun n => ¬ n.IsNaN := by decide +kernel
  have hsmall : ∀ v ∈ mixedItems, v.NumbersIn fun n => n.IsSmall := by decide +kernel
  refine ⟨by decide +kernel, equals_setOf_of_perm mixedItems.reverse_perm.symm hkeys hnan ?_⟩
  exact Number.roundApart_of_small fun n hn => hn.of_numbersIn hsmall

/-- Two integers next to each other, and the floating-point number to which both are rounded. -/
def roundedItems : List Value := [int 9007199254740992, int 9007199254740993, float 9007199254740992.0]

theorem not_equals_setOf_rounded : (∀ v ∈ roundedItems, v.isHashable = true ∧ v.KeysApart) ∧
    (∀ v ∈ roundedItems, v.NumbersIn fun n => ¬ n.IsNaN) ∧
    roundedItems.Perm [float 9007199254740992.0, int 9007199254740992, int 9007199254740993] ∧
    (setOf roundedItems).equals
      (setOf [float 9007199254740992.0, int 9007199254740992, int 9007199254740993]) = false := by
  refine ⟨by decide +kernel, by decide +kernel, ?_, by decide +kernel⟩
  exact List.perm_append_singleton (float 9007199254740992.0) [int 9007199254740992, int 9007199254740993]

end TypeWatch.Value
