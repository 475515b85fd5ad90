import Mathlib.Logic.Relation
import TypeWatch.Value.Class

/-! # The order of classes

A class is below those classes that are reached from it over bases, `object` always among them, and below no others
(`ClassType.isSubtype_iff_reaches`). A class is made after its bases, so that it is not reached from them
(`ClassType.not_reaches`). Hence classes are ordered, and `object` is the greatest of them
(`ClassType.subclass_order`). -/
namespace TypeWatch
set_option autoImplicit false

/-- A built-in class is below `object`, below itself and below what its base is below. -/
theorem Builtin.isSubtype_eq (a b : Builtin) :
    a.isSubtype b = (a == b || b == object || a.base?.any fun c => c.isSubtype b) := by
  cases a <;> cases b <;> rfl

namespace ClassType

variable {a b c : ClassType}

/-! ## Bases -/

theorem anySubtype_eq (bs : List ClassType) (b : ClassType) :
    anySubtype bs b = bs.any fun c => c.isSubtype b := by
  induction bs with
  | nil => rfl
  | cons c bs ih => rw [anySubtype, ih, List.any_cons]

theorem isSubtype_object (a : ClassType) : a.isSubtype (builtin .object) = true := by
  cases a with
  | builtin a => simp [isSubtype, builtin?, Builtin.isSubtype]
  | user n bs => simp [isSubtype]

theorem object_isSubtype : (builtin .object).isSubtype b = true ↔ b = builtin .object := by
  cases b with
  | builtin b => cases b <;> decide
  | user n bs => simp [isSubtype, builtin?]

/-- A class is below `object`, below itself and below what one of its bases is below. -/
theorem isSubtype_iff (a b : ClassType) :
    a.isSubtype b = true ↔ a = b ∨ b = builtin .object ∨ ∃ c ∈ a.bases, c.isSubtype b = true := by
  cases a with
  | builtin a =>
    cases b with
    | builtin b =>
      rw [isSubtype, builtin?, Option.any_some, Builtin.isSubtype_eq]
      cases h : a.base? <;> simp [bases, isSubtype, builtin?, h, or_assoc]
    | user n bs => cases h : a.base? <;> simp [isSubtype, builtin?, bases, h]
  | user n bs =>
    rw [isSubtype, anySubtype_eq]
    cases bs with
    | nil => simp [bases, object_isSubtype]
    | cons c bs => simp [bases, or_assoc]

/-- All classes but `object` have a base. -/
theorem exists_base (h : a ≠ builtin .object) : ∃ b, b ∈ a.bases := by
  cases a with
  | builtin a =>
    cases a with
    | object => exact absurd rfl h
    | _ => exact ⟨_, List.mem_singleton_self _⟩
  | user n bs => cases bs <;> exact ⟨_, List.mem_cons_self⟩

/-! ## Heights -/

mutual

/-- The length of the longest way from a class to `object`. -/
def height : ClassType → Nat
  | builtin .object => 0
  | builtin .bool => 2
  | builtin _ => 1
  | user _ bases => tallest bases + 1

def tallest : List ClassType → Nat
  | [] => 0
  | a :: as => max a.height (tallest as)

end

theorem height_le_tallest {as : List ClassType} (h : a ∈ as) : a.height ≤ tallest as := by
  induction as with
  | nil => exact absurd h List.not_mem_nil
  | cons b as ih =>
    rw [tallest]
    rcases List.mem_cons.mp h with rfl | h
    · exact Nat.le_max_left _ _
    · exact Nat.le_trans (ih h) (Nat.le_max_right _ _)

theorem height_lt (h : b ∈ a.bases) : b.height < a.height := by
  cases a with
  | builtin a =>
    have hall : ∀ b ∈ (builtin a).bases, b.height < (builtin a).height := by cases a <;> decide
    exact hall b h
  | user n bs =>
    rw [height]
    cases bs with
    | nil =>
      obtain rfl := List.mem_singleton.mp h
      exact Nat.succ_pos _
    | cons c bs => exact Nat.lt_succ_of_le (height_le_tallest h)

theorem wellFounded_bases : WellFounded fun b a : ClassType => b ∈ a.bases :=
  Subrelation.wf height_lt (measure height).wf

/-! ## Reachability -/

/-- Whether one comes from a class to another one by going over to a base any number of times. -/
def Reaches : ClassType → ClassType → Prop := Relation.ReflTransGen fun a b => b ∈ a.bases

theorem reaches_object (a : ClassType) : a.Reaches (builtin .object) := by
  induction a using wellFounded_bases.induction with
  | _ a ih =>
    by_cases h : a = builtin .object
    · rw [h]
      exact .refl
    · obtain ⟨b, hb⟩ := exists_base h
      exact .head hb (ih b hb)

theorem isSubtype_iff_reaches : a.isSubtype b = true ↔ a.Reaches b := by
  induction a using wellFounded_bases.induction with
  | _ a ih =>
    rw [isSubtype_iff]
    constructor
    · rintro (rfl | rfl | ⟨c, hc, hcb⟩)
      · exact .refl
      · exact a.reaches_object
      · exact .head hc ((ih c hc).mp hcb)
    · intro h
      rcases h.cases_head with rfl | ⟨c, hc, hcb⟩
      · exact .inl rfl
      · exact .inr (.inr ⟨c, hc, (ih c hc).mpr hcb⟩)

/-- No class contains itself. -/
theorem not_reaches (h : b ∈ a.bases) : ¬ b.Reaches a := by
  induction a using wellFounded_bases.induction generalizing b with
  | _ a ih =>
    intro hba
    rcases hba.cases_head with rfl | ⟨c, hc, hca⟩
    · exact ih b h h .refl
    · exact ih b h hc (hca.tail h)

theorem isSubtype_refl (a : ClassType) : a.isSubtype a = true := isSubtype_iff_reaches.mpr .refl

theorem isSubtype_trans (hab : a.isSubtype b = true) (hbc : b.isSubtype c = true) : a.isSubtype c = true :=
  isSubtype_iff_reaches.mpr ((isSubtype_iff_reaches.mp hab).trans (isSubtype_iff_reaches.mp hbc))

theorem isSubtype_antisymm (hab : a.isSubtype b = true) (hba : b.isSubtype a = true) : a = b := by
  rcases (isSubtype_iff_reaches.mp hab).cases_head with rfl | ⟨c, hc, hcb⟩
  · rfl
  · exact absurd (hcb.trans (isSubtype_iff_reaches.mp hba)) (not_reaches hc)

/-- A class is below `object` and the classes that are reached from it over bases, among which `object` is anyway. This
is a partial order with `object` as its greatest element, in which classes are the same that are built alike. -/
theorem subclass_order :
    (∀ a b : ClassType, a.isSubtype b = true ↔
      b = builtin .object ∨ Relation.ReflTransGen (fun x y => y ∈ x.bases) a b) ∧
    (∀ a b : ClassType, a.isSubtype b = true ↔ Relation.ReflTransGen (fun x y => y ∈ x.bases) a b) ∧
    (∀ a : ClassType, a.isSubtype a = true) ∧
    (∀ a b c : ClassType, a.isSubtype b = true → b.isSubtype c = true → a.isSubtype c = true) ∧
    (∀ a b : ClassType, a.isSubtype b = true → b.isSubtype a = true → a.same b = true) ∧
    ∀ a : ClassType, a.isSubtype (builtin .object) = true := by
  refine ⟨fun a b => ?_, fun a b => isSubtype_iff_reaches, isSubtype_refl, fun a b c => isSubtype_trans, ?_,
    isSubtype_object⟩
  · constructor
    · exact fun h => .inr (isSubtype_iff_reaches.mp h)
    · rintro (rfl | h)
      · exact a.isSubtype_object
      · exact isSubtype_iff_reaches.mpr h
  · intro a b hab hba
    rw [isSubtype_antisymm hab hba]
    exact same_self b

/-- A class of a program that other ones have for a base. -/
def shared : ClassType := user "Shared" []

/-- A class with a base that names another one twice. -/
def doubled : ClassType := user "Doubled" [shared, shared]

/-- A class that has another one above it on three ways, and a container beside them. -/
def diamond : ClassType := user "Diamond" [user "Single" [shared], doubled, builtin .dict]

theorem subclass_order_diamond : diamond.isSubtype shared = true ∧
    Relation.ReflTransGen (fun x y => y ∈ x.bases) diamond (builtin .dict) ∧ shared.same (user "Shared" []) = true := by
  obtain ⟨-, hreaches, -, htrans, hantisymm, -⟩ := subclass_order
  refine ⟨htrans diamond doubled shared (by decide) (by decide), ?_, hantisymm _ _ (by decide) (by decide)⟩
  exact (hreaches _ _).mp (by decide)

end ClassType
end TypeWatch
