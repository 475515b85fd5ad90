/-! # Results and look-up

When one computation after another succeeds, and what the first binding of a name among others is, after
bindings are put before them or taken from them. -/
namespace TypeWatch
set_option autoImplicit false

/-! ## Steps that succeed -/

theorem exists_of_bind_ok {ε α β : Type} {r : Except ε α} {f : α → Except ε β} {b : β}
    (h : r >>= f = .ok b) : ∃ a, r = .ok a ∧ f a = .ok b := by
  cases r with
  | error e => exact absurd h nofun
  | ok a => exact ⟨a, rfl, h⟩

/-! ## Look-up of names -/

variable {κ β : Type} [BEq κ] [LawfulBEq κ] [DecidableEq κ]

theorem lookup_cons_if (k : κ) (v : β) (l : List (κ × β)) (name : κ) :
    ((k, v) :: l).lookup name = if name = k then some v else l.lookup name := by
  by_cases h : name = k
  · simp [h]
  · have hb : (name == k) = false := beq_eq_false_iff_ne.mpr h
    simp [List.lookup_cons, hb, h]

theorem lookup_filter_ne (l : List (κ × β)) (removed name : κ) :
    (l.filter fun x => x.1 != removed).lookup name =
      if name = removed then none else l.lookup name := by
  induction l with
  | nil => simp
  | cons x l ih =>
    obtain ⟨k, v⟩ := x
    by_cases hk : k = removed
    · rw [List.filter_cons_of_neg (by simpa using hk), ih, lookup_cons_if, hk]
      by_cases h : name = removed <;> simp [h]
    · rw [List.filter_cons_of_pos (by simpa using hk), lookup_cons_if, lookup_cons_if, ih]
      by_cases h : name = k
      · rw [if_pos h, if_pos h, if_neg (by rw [h]; exact hk)]
      · rw [if_neg h, if_neg h]

end TypeWatch
