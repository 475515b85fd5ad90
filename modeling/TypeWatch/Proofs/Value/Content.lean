import Mathlib.Data.List.Forall2
import TypeWatch.Value.Equality

/-! # What values consist of

A value is a number, or it has a head and members in an order, or it is a set or a dictionary (`Value.Content`).
Equality is decided by that: members in an order are equal one by one, and of the elements of a set and the entries of
a dictionary each is equal to one of as many others (`Value.equals_iff`). -/
namespace TypeWatch.Value
set_option autoImplicit false

/-! ## Numbers -/

inductive Number where
  | bool (b : Bool)
  | int (n : Int64)
  | float (x : Float)
  | complex (re im : Float)

namespace Number

/-- The real and imaginary part of a number. -/
def parts : Number → Float × Float
  | bool b => (if b then 1.0 else 0.0, 0.0)
  | int n => (nearestFloat n, 0.0)
  | float x => (x, 0.0)
  | complex re im => (re, im)

def sameParts (m n : Number) : Bool := m.parts.1 == n.parts.1 && m.parts.2 == n.parts.2

/-- Integers are compared as they are, and so are truth values. -/
def same : Number → Number → Bool
  | bool x, bool y => x == y
  | int m, int n => m == n
  | m, n => m.sameParts n

end Number

/-! ## Contents -/

/-- What a value that is not a number is besides the members that it has in an order. -/
inductive Head where
  | none
  | str (text : String)
  | bytes (octets : List UInt8)
  | list
  | tuple
  | slice
  | object (cls : ClassType) (full : Bool)
  | type (cls : ClassType)
  | applied (origin : ClassType)
  | form (f : TypingForm)
  | module (name : String)
  | function (name : String)

inductive Content where
  | number (n : Number)
  | ordered (head : Head) (members : List Value)
  | elements (items : List Value)
  | entries (entries : List (Value × Value))

/-- The bindings of a module do not count. -/
def content : Value → Content
  | none => .ordered .none []
  | bool b => .number (.bool b)
  | int n => .number (.int n)
  | float x => .number (.float x)
  | complex re im => .number (.complex re im)
  | str text => .ordered (.str text) []
  | bytes octets => .ordered (.bytes octets) []
  | list items => .ordered .list items
  | tuple items => .ordered .tuple items
  | set items => .elements items
  | frozenset items => .elements items
  | dict es => .entries es
  | slice start stop step => .ordered .slice [start, stop, step]
  | object cls payload => .ordered (.object cls payload.isSome) payload.toList
  | type cls => .ordered (.type cls) []
  | applied origin args => .ordered (.applied origin) args
  | form f => .ordered (.form f) []
  | module name _ => .ordered (.module name) []
  | function name => .ordered (.function name) []

/-- The members of a sequence, a set or an object, and the keys and values of a dictionary. -/
def Content.members : Content → List Value
  | number _ => []
  | ordered _ members => members
  | elements items => items
  | entries es => es.map Prod.fst ++ es.map Prod.snd

def Content.number? : Content → Option Number
  | number n => some n
  | _ => Option.none

theorem Content.number?_eq_some {c : Content} {n : Number} : c.number? = some n ↔ c = .number n := by
  cases c <;> simp [number?]

theorem mem_members_entries {es : List (Value × Value)} {p : Value} :
    p ∈ (Content.entries es).members ↔ ∃ e ∈ es, p = e.1 ∨ p = e.2 := by
  simp only [Content.members, List.mem_append, List.mem_map, eq_comm (a := p), and_or_left, exists_or]

theorem sizeOf_ofEntries {es : List (Value × Value)} {p : Value} (h : p ∈ (Content.entries es).members) :
    sizeOf p < sizeOf es := by
  obtain ⟨⟨k, v⟩, he, hp⟩ := mem_members_entries.mp h
  have hlt := List.sizeOf_lt_of_mem he
  rw [Prod.mk.sizeOf_spec] at hlt
  rcases hp with rfl | rfl
  · omega
  · omega

theorem sizeOf_member {v p : Value} (h : p ∈ v.content.members) : sizeOf p < sizeOf v := by
  have hlist : ∀ items : List Value, p ∈ items → sizeOf p < sizeOf items := fun _ => List.sizeOf_lt_of_mem
  cases v with
  | list items =>
    rw [list.sizeOf_spec]
    exact Nat.lt_add_left 1 (hlist items h)
  | tuple items =>
    rw [tuple.sizeOf_spec]
    exact Nat.lt_add_left 1 (hlist items h)
  | set items =>
    rw [set.sizeOf_spec]
    exact Nat.lt_add_left 1 (hlist items h)
  | frozenset items =>
    rw [frozenset.sizeOf_spec]
    exact Nat.lt_add_left 1 (hlist items h)
  | applied origin args =>
    rw [applied.sizeOf_spec]
    exact Nat.lt_add_left _ (hlist args h)
  | dict es =>
    rw [dict.sizeOf_spec]
    exact Nat.lt_add_left 1 (sizeOf_ofEntries h)
  | object cls payload =>
    cases payload with
    | none => exact absurd h List.not_mem_nil
    | some payload =>
      obtain rfl := List.mem_singleton.mp h
      simp
      omega
  | slice start stop step =>
    simp only [content, Content.members, List.mem_cons, List.not_mem_nil, or_false] at h
    rw [slice.sizeOf_spec]
    rcases h with rfl | rfl | rfl <;> omega
  | _ => exact absurd h List.not_mem_nil

/-! ## Equality of contents -/

/-- Entries with equal keys and equal values. -/
def SameEntry (e o : Value × Value) : Prop := e.1.equals o.1 = true ∧ e.2.equals o.2 = true

inductive Alike : Content → Content → Prop
  | number {m n : Number} (h : m.same n = true) : Alike (.number m) (.number n)
  | ordered {head : Head} {xs ys : List Value} (h : List.Forall₂ (fun x y => x.equals y = true) xs ys) :
    Alike (.ordered head xs) (.ordered head ys)
  | elements {xs ys : List Value} (hlength : xs.length = ys.length)
    (h : ∀ x ∈ xs, ∃ y ∈ ys, x.equals y = true) : Alike (.elements xs) (.elements ys)
  | entries {es os : List (Value × Value)} (hlength : es.length = os.length)
    (h : ∀ e ∈ es, ∃ o ∈ os, SameEntry e o) : Alike (.entries es) (.entries os)

theorem equalLists_iff {xs ys : List Value} :
    equalLists xs ys = true ↔ List.Forall₂ (fun x y => x.equals y = true) xs ys := by
  induction xs generalizing ys with
  | nil => cases ys <;> simp [equalLists]
  | cons x xs ih => cases ys <;> simp [equalLists, ih]

theorem equalOptions_iff {p q : Option Value} :
    equalOptions p q = true ↔ p.isSome = q.isSome ∧ List.Forall₂ (fun x y => x.equals y = true) p.toList q.toList := by
  cases p <;> cases q <;> simp [equalOptions]

theorem allAmong_iff {xs ys : List Value} :
    allAmong xs ys = true ↔ ∀ x ∈ xs, ∃ y ∈ ys, x.equals y = true := by
  induction xs with
  | nil => simp [allAmong]
  | cons x xs ih => simp [allAmong, ih]

theorem allEntriesAmong_iff {es os : List (Value × Value)} :
    allEntriesAmong es os = true ↔ ∀ e ∈ es, ∃ o ∈ os, SameEntry e o := by
  induction es with
  | nil => simp [allEntriesAmong]
  | cons e es ih =>
    obtain ⟨k, v⟩ := e
    simp only [allEntriesAmong, Bool.and_eq_true, List.any_eq_true, ih, List.forall_mem_cons, SameEntry]

theorem alike_iff {c c' : Content} : Alike c c' ↔
    match c, c' with
    | .number m, .number n => m.same n = true
    | .ordered head xs, .ordered head' ys => head = head' ∧ List.Forall₂ (fun x y => x.equals y = true) xs ys
    | .elements xs, .elements ys => xs.length = ys.length ∧ ∀ x ∈ xs, ∃ y ∈ ys, x.equals y = true
    | .entries es, .entries os => es.length = os.length ∧ ∀ e ∈ es, ∃ o ∈ os, SameEntry e o
    | _, _ => False := by
  constructor
  · rintro (h | h | ⟨hlength, h⟩ | ⟨hlength, h⟩)
    · exact h
    · exact ⟨rfl, h⟩
    · exact ⟨hlength, h⟩
    · exact ⟨hlength, h⟩
  · intro h
    split at h
    · exact .number h
    · obtain ⟨rfl, h⟩ := h
      exact .ordered h
    · exact .elements h.1 h.2
    · exact .entries h.1 h.2
    · exact h.elim

/-- Values are equal if what they consist of is. -/
theorem equals_iff {a b : Value} : a.equals b = true ↔ Alike a.content b.content := by
  rw [alike_iff]
  cases a <;> cases b <;>
    simp [content, equals, sameParts, parts?, Number.same, Number.sameParts, Number.parts, equalLists_iff,
      equalOptions_iff, allAmong_iff, allEntriesAmong_iff, and_assoc]

/-! ## Values within values -/

/-- A value that occurs in another one, at any depth. -/
inductive Within (u : Value) : Value → Prop
  | self : Within u u
  | member {p v : Value} (hp : p ∈ v.content.members) (h : Within u p) : Within u v

mutual

/-- The values that occur in a value, itself first. -/
def occurring : Value → List Value
  | list items => list items :: occurringAmong items
  | tuple items => tuple items :: occurringAmong items
  | set items => set items :: occurringAmong items
  | frozenset items => frozenset items :: occurringAmong items
  | dict es => dict es :: occurringInEntries es
  | slice start stop step => slice start stop step :: (start.occurring ++ stop.occurring ++ step.occurring)
  | object cls payload => object cls payload :: occurringInOption payload
  | applied origin args => applied origin args :: occurringAmong args
  | v => [v]

def occurringAmong : List Value → List Value
  | [] => []
  | v :: vs => v.occurring ++ occurringAmong vs

def occurringInEntries : List (Value × Value) → List Value
  | [] => []
  | (k, v) :: es => k.occurring ++ v.occurring ++ occurringInEntries es

def occurringInOption : Option Value → List Value
  | Option.none => []
  | some v => v.occurring

end

theorem mem_occurringAmong {u : Value} {vs : List Value} : u ∈ occurringAmong vs ↔ ∃ p ∈ vs, u ∈ p.occurring := by
  induction vs with
  | nil => simp [occurringAmong]
  | cons v vs ih => simp [occurringAmong, ih]

theorem mem_occurringInEntries {u : Value} {es : List (Value × Value)} :
    u ∈ occurringInEntries es ↔ ∃ e ∈ es, u ∈ e.1.occurring ∨ u ∈ e.2.occurring := by
  induction es with
  | nil => simp [occurringInEntries]
  | cons e es ih => simp [occurringInEntries, ih, or_assoc]

theorem mem_occurring_iff {u v : Value} :
    u ∈ v.occurring ↔ u = v ∨ ∃ p ∈ v.content.members, u ∈ p.occurring := by
  cases v with
  | list items => rw [occurring, List.mem_cons, mem_occurringAmong]; rfl
  | tuple items => rw [occurring, List.mem_cons, mem_occurringAmong]; rfl
  | set items => rw [occurring, List.mem_cons, mem_occurringAmong]; rfl
  | frozenset items => rw [occurring, List.mem_cons, mem_occurringAmong]; rfl
  | dict es =>
    rw [occurring, List.mem_cons, mem_occurringInEntries]
    refine or_congr_right ⟨?_, ?_⟩
    · rintro ⟨e, he, hu | hu⟩
      · exact ⟨e.1, mem_members_entries.mpr ⟨e, he, Or.inl rfl⟩, hu⟩
      · exact ⟨e.2, mem_members_entries.mpr ⟨e, he, Or.inr rfl⟩, hu⟩
    · rintro ⟨p, hp, hu⟩
      obtain ⟨e, he, rfl | rfl⟩ := mem_members_entries.mp hp
      · exact ⟨e, he, Or.inl hu⟩
      · exact ⟨e, he, Or.inr hu⟩
  | applied origin args => rw [occurring, List.mem_cons, mem_occurringAmong]; rfl
  | slice start stop step => simp [occurring, content, Content.members]
  | object cls payload => cases payload <;> simp [occurring, occurringInOption, content, Content.members]
  | _ => simp [occurring, content, Content.members]

theorem within_of_mem_occurring {u v : Value} (h : u ∈ v.occurring) : u.Within v := by
  rcases mem_occurring_iff.mp h with rfl | ⟨p, hp, hu⟩
  · exact .self
  · exact .member hp (within_of_mem_occurring hu)
termination_by sizeOf v
decreasing_by exact sizeOf_member hp

theorem Within.mem_occurring {u v : Value} (h : u.Within v) : u ∈ v.occurring := by
  induction h with
  | self => exact mem_occurring_iff.mpr (Or.inl rfl)
  | member hp _ ih => exact mem_occurring_iff.mpr (Or.inr ⟨_, hp, ih⟩)

/-- What holds of a value and of all values that occur in it. -/
def Throughout (P : Value → Prop) (v : Value) : Prop := ∀ u : Value, u.Within v → P u

instance {P : Value → Prop} [DecidablePred P] (v : Value) : Decidable (v.Throughout P) :=
  decidable_of_iff (∀ u ∈ v.occurring, P u)
    ⟨fun h u hu => h u hu.mem_occurring, fun h u hu => h u (within_of_mem_occurring hu)⟩

theorem Throughout.member {P : Value → Prop} {p v : Value} (h : v.Throughout P) (hp : p ∈ v.content.members) :
    p.Throughout P :=
  fun u hu => h u (.member hp hu)

theorem throughout_iff {P : Value → Prop} {v : Value} :
    v.Throughout P ↔ P v ∧ ∀ p ∈ v.content.members, p.Throughout P := by
  refine ⟨fun h => ⟨h v .self, fun p hp => h.member hp⟩, ?_⟩
  rintro ⟨hv, hmembers⟩ u (_ | ⟨hp, hu⟩)
  · exact hv
  · exact hmembers _ hp u hu

/-- The numbers that occur in a value are some of the given ones. -/
def NumbersIn (ns : Number → Prop) : Value → Prop := Throughout fun u => ∀ n ∈ u.content.number?, ns n

instance {ns : Number → Prop} [DecidablePred ns] (v : Value) : Decidable (v.NumbersIn ns) :=
  inferInstanceAs (Decidable (v.Throughout _))

/-- No element of a set equals a later one, and no key of a dictionary does. -/
def Content.Apart : Content → Prop
  | elements items => items.Pairwise fun v w => v.equals w = false
  | entries es => es.Pairwise fun e o => e.1.equals o.1 = false
  | _ => True

instance (c : Content) : Decidable c.Apart :=
  match c with
  | .elements items => inferInstanceAs (Decidable (items.Pairwise fun v w => v.equals w = false))
  | .entries es => inferInstanceAs (Decidable (es.Pairwise fun e o => e.1.equals o.1 = false))
  | .number _ => isTrue trivial
  | .ordered _ _ => isTrue trivial

/-- The sets and dictionaries that occur in a value have no elements and no keys twice. -/
def KeysApart : Value → Prop := Throughout fun u => u.content.Apart

instance (v : Value) : Decidable v.KeysApart := inferInstanceAs (Decidable (v.Throughout _))

end TypeWatch.Value
