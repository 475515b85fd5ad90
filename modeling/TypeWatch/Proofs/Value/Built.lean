import TypeWatch.Proofs.Value.Evaluated
import TypeWatch.Proofs.Value.FirstKept
import TypeWatch.Value.Written

/-! # What literals keep of what is written

Sets and dictionaries keep the first occurrences of what is written in them (`Literal.builds_of_value`), as long as no
number that is written among the elements or in the keys is rounded and equal to two integers among them. Without
that they do not (`Literal.not_keepsFirsts_rounded`), even if only integers are left. What is not hashable is no
element and no key of a literal (`Literal.not_isUnhashable`). -/
namespace TypeWatch
set_option autoImplicit false

/-! ## What is not hashable -/

theorem Value.allHashable_eq_false {vs : List Value} {v : Value} (hv : v ∈ vs) (h : v.isHashable = false) :
    allHashable vs = false := by
  induction vs with
  | nil => exact absurd hv List.not_mem_nil
  | cons w vs ih =>
    rw [allHashable, Bool.and_eq_false_iff]
    rcases List.mem_cons.mp hv with rfl | hv
    · exact Or.inl h
    · exact Or.inr (ih hv)

def Entry.key? : Entry → Option Expr
  | pair key _ => some key
  | unpack _ => none

namespace Expr

/-- What stands as an element of a set or as a key of a dictionary. -/
def keyParts : Expr → List Expr
  | set _ elements => elements
  | dict _ entries => entries.filterMap Entry.key?
  | _ => []

mutual

/-- Whether a list, a set or a dictionary is written here, or a tuple with one in it. -/
def isUnhashable : Expr → Bool
  | list _ _ | set _ _ | dict _ _ => true
  | call _ (name _ "set") [] => true
  | tuple _ elements => anyUnhashable elements
  | _ => false

def anyUnhashable : List Expr → Bool
  | [] => false
  | e :: es => e.isUnhashable || anyUnhashable es

end

theorem anyUnhashable_iff {es : List Expr} : anyUnhashable es = true ↔ ∃ e ∈ es, e.isUnhashable = true := by
  induction es with
  | nil => simp [anyUnhashable]
  | cons e es ih => simp [anyUnhashable, ih]

end Expr

namespace Literal

open Value (firsts firstEntries NumberAmong Number.RoundApart)

variable {e : Expr} {v : Value}

/-! ## First occurrences -/

/-- What is kept of the values that are written, if none of the numbers in them is rounded and equal to two integers
in them. -/
def KeepsFirsts (written kept : List Value) : Prop :=
  Number.RoundApart (NumberAmong written) → kept = firsts written

def KeepsEntries (written kept : List (Value × Value)) : Prop :=
  Number.RoundApart (NumberAmong (written.map Prod.fst)) → kept = firstEntries written

/-- A value as it is written: lists and tuples with all elements, sets with the first occurrences of elements, and
dictionaries with the first occurrences of keys, each with the value that is written last for a key equal to it. -/
inductive Builds : Expr → Value → Prop
  | plain {e : Expr} {v : Value} (hplain : e.isDisplay = false) (h : value e = .ok v) : Builds e v
  | list {s : Span} {es : List Expr} {vs : List Value} (h : List.Forall₂ Builds es vs) : Builds (.list s es) (.list vs)
  | tuple {s : Span} {es : List Expr} {vs : List Value} (h : List.Forall₂ Builds es vs) :
    Builds (.tuple s es) (.tuple vs)
  | set {s : Span} {es : List Expr} {written kept : List Value} (h : List.Forall₂ Builds es written)
    (hkept : KeepsFirsts written kept) : Builds (.set s es) (.set kept)
  | dict {s : Span} {pairs : List (Expr × Expr)} {written kept : List (Value × Value)}
    (hkeys : List.Forall₂ Builds (pairs.map Prod.fst) (written.map Prod.fst))
    (hvalues : List.Forall₂ Builds (pairs.map Prod.snd) (written.map Prod.snd)) (hkept : KeepsEntries written kept) :
    Builds (.dict s (pairs.map fun p => .pair p.1 p.2)) (.dict kept)

theorem builds_of_value {e : Expr} {v : Value} (h : value e = .ok v) : Builds e v := by
  cases evaluates_of_value h with
  | plain hplain _ => exact .plain hplain h
  | @list s es vs hvs =>
    refine .list (forall₂_imp_of_mem hvs fun x hx w hxw => ?_)
    have := Expr.sizeOf_child (e := .list s es) hx
    exact builds_of_value hxw
  | @tuple s es vs hvs =>
    refine .tuple (forall₂_imp_of_mem hvs fun x hx w hxw => ?_)
    have := Expr.sizeOf_child (e := .tuple s es) hx
    exact builds_of_value hxw
  | @set s es vs hvs hhashable =>
    refine .set (forall₂_imp_of_mem hvs fun x hx w hxw => ?_) fun hround => ?_
    · have := Expr.sizeOf_child (e := .set s es) hx
      exact builds_of_value hxw
    · refine Value.distinct_eq_firsts (Value.comparable_of_roundApart hround fun w hw => ?_)
      obtain ⟨x, -, hxw⟩ := exists_left_of_forall₂ hvs hw
      exact (wellFormed_of_value hxw).keysApart
  | @dict s pairs written hwritten hhashable =>
    refine @Builds.dict s pairs written _ ?_ ?_ fun hround => ?_
    · refine List.forall₂_map_left_iff.mpr (List.forall₂_map_right_iff.mpr ?_)
      refine forall₂_imp_of_mem hwritten fun p hp w hpw => ?_
      have := Expr.sizeOf_child (entry_mem_parts (s := s) hp).1
      exact builds_of_value hpw.1
    · refine List.forall₂_map_left_iff.mpr (List.forall₂_map_right_iff.mpr ?_)
      refine forall₂_imp_of_mem hwritten fun p hp w hpw => ?_
      have := Expr.sizeOf_child (entry_mem_parts (s := s) hp).2
      exact builds_of_value hpw.2
    · refine Value.putAll_eq_firstEntries (Value.comparable_of_roundApart hround fun k hk => ?_)
      obtain ⟨w, hw, rfl⟩ := List.mem_map.mp hk
      obtain ⟨p, -, hpw⟩ := exists_left_of_forall₂ hwritten hw
      exact (wellFormed_of_value hpw.1).keysApart
termination_by sizeOf e

/-! ## Elements and keys -/

theorem exists_value_of_operand (hplain : e.isDisplay = false) (h : value e = .ok v) {x : Expr}
    (hx : x ∈ e.children) : (∃ w, value x = .ok w) ∨ ∃ s, x = .name s "set" := by
  cases e with
  | list | tuple | set | dict => cases hplain
  | constant s c => exact absurd hx List.not_mem_nil
  | call s callee arguments =>
    rw [value.eq_def] at h
    dsimp only at h
    split at h
    · obtain rfl := List.mem_singleton.mp hx
      exact Or.inr ⟨_, rfl⟩
    · cases h
  | unary s op operand =>
    rw [value] at h
    obtain ⟨w, hw, -⟩ := exists_of_bind_ok h
    obtain rfl := List.mem_singleton.mp hx
    exact Or.inl ⟨w, hw⟩
  | binary s left op right =>
    rw [value] at h
    obtain ⟨w, hw, h⟩ := exists_of_bind_ok h
    obtain ⟨re, -, h⟩ := exists_of_bind_ok h
    obtain ⟨w', hw', -⟩ := exists_of_bind_ok h
    rcases List.mem_pair.mp hx with rfl | rfl
    · exact Or.inl ⟨w, hw⟩
    · exact Or.inl ⟨w', hw'⟩
  | _ => cases h

/-- The parts of what stands for a value stand for values, but for the name in the call that makes the empty set. -/
theorem exists_value_of_child (h : value e = .ok v) {x : Expr} (hx : x ∈ e.children) :
    (∃ w, value x = .ok w) ∨ ∃ s, x = .name s "set" := by
  cases evaluates_of_value h with
  | plain hplain _ => exact exists_value_of_operand hplain h hx
  | list hvs | tuple hvs | set hvs _ =>
    obtain ⟨w, -, hw⟩ := exists_right_of_forall₂ hvs hx
    exact Or.inl ⟨w, hw⟩
  | dict hwritten _ =>
    obtain ⟨entry, hentry, hx⟩ := List.mem_flatMap.mp hx
    obtain ⟨p, hp, rfl⟩ := List.mem_map.mp hentry
    obtain ⟨w, -, hkey, hvalue⟩ := exists_right_of_forall₂ hwritten hp
    rcases List.mem_pair.mp hx with rfl | rfl
    · exact Or.inl ⟨_, hkey⟩
    · exact Or.inl ⟨_, hvalue⟩

/-- The displays in a literal stand for values. -/
theorem exists_value_of_preorder {e : Expr} {v : Value} (h : value e = .ok v) {d : Expr} (hd : d ∈ e.preorder)
    (hparts : d.keyParts ≠ []) : ∃ w, value d = .ok w := by
  rw [Expr.preorder_eq, List.mem_cons, List.mem_flatMap] at hd
  rcases hd with rfl | ⟨x, hx, hd⟩
  · exact ⟨v, h⟩
  · have := Expr.sizeOf_child hx
    rcases exists_value_of_child h hx with ⟨w, hw⟩ | ⟨s, rfl⟩
    · exact exists_value_of_preorder hw hd hparts
    · rw [Expr.preorder_eq] at hd
      obtain rfl := List.mem_singleton.mp hd
      exact absurd rfl hparts
termination_by sizeOf e

theorem not_hashable_of_isUnhashable {e : Expr} {v : Value} (h : value e = .ok v) (he : e.isUnhashable = true) :
    v.isHashable = false := by
  cases evaluates_of_value h with
  | list => rfl
  | set => rfl
  | dict => rfl
  | @tuple s es vs hvs =>
    obtain ⟨x, hx, hunhashable⟩ := Expr.anyUnhashable_iff.mp (by rwa [Expr.isUnhashable] at he)
    obtain ⟨w, hw, hxw⟩ := exists_right_of_forall₂ hvs hx
    have := Expr.sizeOf_child (e := .tuple s es) hx
    rw [Value.isHashable]
    exact Value.allHashable_eq_false hw (not_hashable_of_isUnhashable hxw hunhashable)
  | plain hplain hmembers =>
    cases e with
    | list | tuple | set | dict => cases hplain
    | call s callee arguments =>
      rw [value.eq_def] at h
      dsimp only at h
      split at h
      · cases h
        rfl
      · cases h
    | _ => exact absurd he (by simp [Expr.isUnhashable])
termination_by sizeOf e

/-- What is written as an element or as a key is hashable if the display stands for a value. -/
theorem hashable_of_keyParts {d : Expr} {w : Value} (h : value d = .ok w) {x : Expr} (hx : x ∈ d.keyParts) :
    ∃ u, value x = .ok u ∧ u.isHashable = true := by
  cases evaluates_of_value h with
  | plain hplain _ =>
    cases d with
    | set | dict => cases hplain
    | _ => exact absurd hx List.not_mem_nil
  | list | tuple => exact absurd hx List.not_mem_nil
  | set hvs hhashable =>
    obtain ⟨u, hu, hxu⟩ := exists_right_of_forall₂ hvs hx
    exact ⟨u, hxu, hhashable u hu⟩
  | dict hwritten hhashable =>
    obtain ⟨entry, hentry, hx⟩ := List.mem_filterMap.mp hx
    obtain ⟨p, hp, rfl⟩ := List.mem_map.mp hentry
    obtain ⟨w, hw, hkey, -⟩ := exists_right_of_forall₂ hwritten hp
    cases hx
    exact ⟨w.1, hkey, hhashable w.1 (List.mem_map_of_mem hw)⟩

/-- A list, a set or a dictionary is no element and no key of a literal, and neither is a tuple with one in it. -/
theorem not_isUnhashable (h : value e = .ok v) {d x : Expr} (hd : d ∈ e.preorder) (hx : x ∈ d.keyParts) :
    x.isUnhashable = false := by
  obtain ⟨w, hw⟩ := exists_value_of_preorder h hd (List.ne_nil_of_mem hx)
  obtain ⟨u, hxu, hhashable⟩ := hashable_of_keyParts hw hx
  refine Bool.eq_false_iff.mpr fun hunhashable => ?_
  exact Bool.false_ne_true ((not_hashable_of_isUnhashable hxu hunhashable).symm.trans hhashable)

/-! ## Displays that stand for values -/

theorem exists_of_set {s : Span} {es : List Expr} (h : (value (.set s es)).toOption.isSome = true) :
    ∃ written, values es = .ok written ∧ value (.set s es) = .ok (Value.setOf written) := by
  cases hvalue : value (.set s es) with
  | error err =>
    rw [hvalue] at h
    contradiction
  | ok v =>
    rw [value] at hvalue
    obtain ⟨written, hwritten, hvalue⟩ := exists_of_bind_ok hvalue
    obtain ⟨_, -, hvalue⟩ := exists_of_bind_ok hvalue
    cases hvalue
    exact ⟨written, hwritten, rfl⟩

theorem exists_of_dict {s : Span} {es : List Entry} (h : (value (.dict s es)).toOption.isSome = true) :
    ∃ written, entries (.dict s es) es = .ok written ∧ value (.dict s es) = .ok (Value.dictOf written) := by
  cases hvalue : value (.dict s es) with
  | error err =>
    rw [hvalue] at h
    contradiction
  | ok v =>
    rw [value] at hvalue
    obtain ⟨written, hwritten, hvalue⟩ := exists_of_bind_ok hvalue
    cases hvalue
    exact ⟨written, hwritten, rfl⟩

end Literal

/-! ## Texts -/

theorem exists_of_any {ε α : Type} {r : Except ε α} {p : α → Bool} (h : r.toOption.any p = true) :
    ∃ a, r = .ok a ∧ p a = true := by
  cases r with
  | error err => contradiction
  | ok a => exact ⟨a, rfl, h⟩

/-- A literal stands for a value that is well-formed at every depth and keeps what is written first, and no value in a
set or before a colon is one that cannot be hashed. -/
theorem Value.ofText_wellFormed (text : String) :
    (∀ v, Value.ofText text = .ok v → v.WellFormed ∧ ∃ e, Expr.ofText text = .ok e ∧ Literal.Builds e v) ∧
      ∀ e, Expr.ofText text = .ok e → ∀ d ∈ e.preorder, ∀ x ∈ d.keyParts, x.isUnhashable = true →
        ∃ err, Value.ofText text = .error err := by
  cases htext : Expr.ofText text with
  | error err =>
    rw [Value.ofText, htext]
    exact ⟨by rintro v ⟨⟩, by rintro e ⟨⟩⟩
  | ok e =>
    rw [ofText_eq_value htext]
    refine ⟨fun v hv => ⟨Literal.wellFormed_of_value hv, e, rfl, Literal.builds_of_value hv⟩, ?_⟩
    intro e' he d hd x hx hunhashable
    cases he
    cases hvalue : Literal.value e with
    | error err => exact ⟨err, rfl⟩
    | ok v => exact absurd ((Literal.not_isUnhashable hvalue hd hx).symm.trans hunhashable) Bool.false_ne_true

/-- A dictionary with a tuple for a key twice, and with an unhashable value. -/
def repeatedKeys : String := "\x7b(1, 'a'): \x7bTrue, 2, 1\x7d, 1.0: [\x7b\x7d], (True, 'a'): 'z'\x7d"

def hiddenList : String := "\x7b1, (2, ([], 3))\x7d"

theorem Value.ofText_repeatedKeys :
    (∃ e v, Expr.ofText repeatedKeys = .ok e ∧ Value.ofText repeatedKeys = .ok v ∧
      v.text = "\x7b(1, 'a'): 'z', 1.0: [\x7b\x7d]\x7d" ∧ v.WellFormed ∧ Literal.Builds e v) ∧
    ∃ e, Expr.ofText hiddenList = .ok e ∧ e.keyParts.any Expr.isUnhashable = true ∧
      ∃ err, Value.ofText hiddenList = .error err := by
  constructor
  · have hvalue : ((Value.ofText repeatedKeys).toOption.any fun v =>
        v.text == "\x7b(1, 'a'): 'z', 1.0: [\x7b\x7d]\x7d") = true := by decide +kernel
    obtain ⟨v, hv, htext⟩ := exists_of_any hvalue
    obtain ⟨hwell, e, he, hbuilds⟩ := (Value.ofText_wellFormed repeatedKeys).1 v hv
    exact ⟨e, v, he, hv, beq_iff_eq.mp htext, hwell, hbuilds⟩
  · have hparts : ((Expr.ofText hiddenList).toOption.any fun e => e.keyParts.any Expr.isUnhashable) = true := by
      decide +kernel
    obtain ⟨e, he, hkeys⟩ := exists_of_any hparts
    obtain ⟨x, hx, hunhashable⟩ := List.any_eq_true.mp hkeys
    have hself : e ∈ e.preorder := by
      rw [Expr.preorder_eq]
      exact List.mem_cons_self
    exact ⟨e, he, hkeys, (Value.ofText_wellFormed hiddenList).2 e he e hself x hx hunhashable⟩

/-- Two integers next to each other, and the floating-point number to which both are rounded. It equals the first, and
so it is not kept. -/
def roundedElements : String := "\x7b9007199254740992, 9007199254740992.0, 9007199254740993\x7d"

def roundedKeys : String := "\x7b9007199254740992: 'a', 9007199254740993: 'b', 9007199254740992.0: 'c'\x7d"

namespace Literal

open Value (firsts firstEntries)

/-- Whether a set without floating-point numbers keeps other elements than the first. -/
def losesElements : Expr → Bool
  | .set s es => (value (.set s es)).toOption.isSome && (values es).toOption.any fun written =>
    decide (Value.setOf written).FloatFree && (Value.setOf written).text != (Value.set (firsts written)).text
  | _ => false

def losesEntries : Expr → Bool
  | .dict s es => (value (.dict s es)).toOption.isSome && (entries (.dict s es) es).toOption.any fun written =>
    decide (Value.dictOf written).FloatFree && (Value.dictOf written).text != (Value.dict (firstEntries written)).text
  | _ => false

end Literal

/-- No floating-point number is left in these, but one was written. The second integer equals it and is kept all the
same, and as a key it does not get the value that is written last for a key equal to it. -/
theorem Literal.not_keepsFirsts_rounded :
    (∃ s es written, Expr.ofText roundedElements = .ok (.set s es) ∧ Literal.values es = .ok written ∧
      Value.ofText roundedElements = .ok (Value.setOf written) ∧ (Value.setOf written).FloatFree ∧
      Value.setOf written ≠ .set (Value.firsts written)) ∧
    ∃ s es written, Expr.ofText roundedKeys = .ok (.dict s es) ∧ Literal.entries (.dict s es) es = .ok written ∧
      Value.ofText roundedKeys = .ok (Value.dictOf written) ∧ (Value.dictOf written).FloatFree ∧
      Value.dictOf written ≠ .dict (Value.firstEntries written) := by
  have hset : ((Expr.ofText roundedElements).toOption.any Literal.losesElements) = true := by decide +kernel
  have hdict : ((Expr.ofText roundedKeys).toOption.any Literal.losesEntries) = true := by decide +kernel
  constructor
  · obtain ⟨e, he, hcheck⟩ := exists_of_any hset
    cases e with
    | set s es =>
      obtain ⟨hvalue, hcheck⟩ := Bool.and_eq_true_iff.mp hcheck
      obtain ⟨written, hwritten, hvalue⟩ := Literal.exists_of_set hvalue
      simp only [hwritten, Except.toOption, Option.any_some, Bool.and_eq_true, bne_iff_ne, decide_eq_true_eq] at hcheck
      refine ⟨s, es, written, he, hwritten, (Value.ofText_eq_value he).trans hvalue, hcheck.1, fun heq => ?_⟩
      exact hcheck.2 (congrArg Value.text heq)
    | _ => contradiction
  · obtain ⟨e, he, hcheck⟩ := exists_of_any hdict
    cases e with
    | dict s es =>
      obtain ⟨hvalue, hcheck⟩ := Bool.and_eq_true_iff.mp hcheck
      obtain ⟨written, hwritten, hvalue⟩ := Literal.exists_of_dict hvalue
      simp only [hwritten, Except.toOption, Option.any_some, Bool.and_eq_true, bne_iff_ne, decide_eq_true_eq] at hcheck
      refine ⟨s, es, written, he, hwritten, (Value.ofText_eq_value he).trans hvalue, hcheck.1, fun heq => ?_⟩
      exact hcheck.2 (congrArg Value.text heq)
    | _ => contradiction

end TypeWatch
