import TypeWatch.Proofs.Value.Content

/-! # Sets and dictionaries as they are built

Of the values that a set is made of, the first of those that are equal remains (`Value.distinct`), and the keys of a
dictionary remain in the same way (`Value.keys_dictOf`). So no element and no key is there twice, at whatever depth
(`Value.keysApart_setOf`, `Value.keysApart_dictOf`). -/
namespace TypeWatch.Value
set_option autoImplicit false

variable {items : List Value} {v : Value}

/-! ## Distinct values -/

theorem mem_addDistinct {w : Value} (h : w ∈ addDistinct items v) : w ∈ items ∨ w = v := by
  rw [addDistinct] at h
  split at h
  · exact Or.inl h
  · exact List.mem_append.mp h |>.imp_right List.mem_singleton.mp

theorem subset_addDistinct (items : List Value) (v : Value) : items ⊆ addDistinct items v := by
  rw [addDistinct]
  split
  · exact List.Subset.refl items
  · exact List.subset_append_left items [v]

/-- What is added, or one that it is equal to, is there. -/
theorem exists_mem_addDistinct (hself : v.equals v = true) : ∃ w ∈ addDistinct items v, w.equals v = true := by
  rw [addDistinct]
  split
  · rename_i hany
    exact List.any_eq_true.mp hany
  · exact ⟨v, List.mem_append_right _ List.mem_cons_self, hself⟩

theorem pairwise_addDistinct (h : items.Pairwise fun v w => v.equals w = false) :
    (addDistinct items v).Pairwise fun v w => v.equals w = false := by
  rw [addDistinct]
  split
  · exact h
  · rename_i hany
    refine List.pairwise_append.mpr ⟨h, List.pairwise_singleton _ _, fun w hw u hu => ?_⟩
    obtain rfl := List.mem_singleton.mp hu
    exact Bool.eq_false_iff.mpr fun heq => hany (List.any_eq_true.mpr ⟨w, hw, heq⟩)

theorem mem_of_mem_distinct {w : Value} (h : w ∈ distinct items) : w ∈ items := by
  have hfold : ∀ before, w ∈ items.foldl addDistinct before → w ∈ before ∨ w ∈ items := by
    clear h
    induction items with
    | nil => exact fun before hw => Or.inl hw
    | cons v items ih =>
      intro before hw
      rcases ih _ hw with hbefore | hlater
      · rcases mem_addDistinct hbefore with hbefore | rfl
        · exact Or.inl hbefore
        · exact Or.inr List.mem_cons_self
      · exact Or.inr (List.mem_cons_of_mem v hlater)
  exact (hfold [] h).resolve_left List.not_mem_nil

theorem pairwise_distinct (items : List Value) : (distinct items).Pairwise fun v w => v.equals w = false := by
  have hfold : ∀ before : List Value, before.Pairwise (fun v w => v.equals w = false) →
      (items.foldl addDistinct before).Pairwise fun v w => v.equals w = false := by
    induction items with
    | nil => exact fun before h => h
    | cons v items ih => exact fun before h => ih _ (pairwise_addDistinct h)
  exact hfold [] .nil

theorem subset_foldl_addDistinct (before items : List Value) : before ⊆ items.foldl addDistinct before := by
  induction items generalizing before with
  | nil => exact List.Subset.refl before
  | cons v items ih => exact List.Subset.trans (subset_addDistinct before v) (ih _)

/-- Of each value that a set is made of, an equal one remains. -/
theorem exists_mem_distinct (hself : ∀ v ∈ items, v.equals v = true) :
    ∀ v ∈ items, ∃ w ∈ distinct items, w.equals v = true := by
  have hfold : ∀ before, ∀ v ∈ items, ∃ w ∈ items.foldl addDistinct before, w.equals v = true := by
    induction items with
    | nil => exact fun before v hv => absurd hv List.not_mem_nil
    | cons u items ih =>
      intro before v hv
      obtain ⟨hu, hitems⟩ := List.forall_mem_cons.mp hself
      rcases List.mem_cons.mp hv with rfl | hv
      · obtain ⟨w, hw, heq⟩ : ∃ w ∈ addDistinct before v, w.equals v = true := exists_mem_addDistinct hu
        exact ⟨w, subset_foldl_addDistinct _ items hw, heq⟩
      · exact ih hitems _ v hv
  exact hfold []

/-! ## Keys -/

theorem keys_putEntry (es : List (Value × Value)) (key value : Value) :
    (putEntry es key value).map Prod.fst = addDistinct (es.map Prod.fst) key := by
  induction es with
  | nil => rfl
  | cons e es ih =>
    obtain ⟨k, v⟩ := e
    rw [putEntry, List.map_cons, addDistinct, List.any_cons]
    cases hkey : k.equals key with
    | true => simp
    | false =>
      simp only [Bool.false_eq_true, if_false, List.map_cons, ih, Bool.false_or, addDistinct]
      split <;> rfl

/-- The entries that a dictionary has after it is given some. -/
def putAll (es entries : List (Value × Value)) : List (Value × Value) :=
  entries.foldl (fun acc e => putEntry acc e.1 e.2) es

theorem keys_dictOf (entries : List (Value × Value)) :
    (putAll [] entries).map Prod.fst = distinct (entries.map Prod.fst) := by
  have hfold : ∀ es, (putAll es entries).map Prod.fst = (entries.map Prod.fst).foldl addDistinct (es.map Prod.fst) := by
    induction entries with
    | nil => exact fun es => rfl
    | cons e entries ih =>
      intro es
      rw [putAll, List.foldl_cons, List.map_cons, List.foldl_cons, ← keys_putEntry]
      exact ih _
  exact hfold []

theorem mem_values_putEntry {es : List (Value × Value)} {key value w : Value}
    (h : w ∈ (putEntry es key value).map Prod.snd) : w ∈ es.map Prod.snd ∨ w = value := by
  induction es with
  | nil => exact Or.inr (List.mem_singleton.mp h)
  | cons e es ih =>
    obtain ⟨k, v⟩ := e
    rw [putEntry] at h
    split at h
    · exact (List.mem_cons.mp h).symm.imp_left (List.mem_cons_of_mem v)
    · rcases List.mem_cons.mp h with rfl | h
      · exact Or.inl List.mem_cons_self
      · exact (ih h).imp_left (List.mem_cons_of_mem v)

theorem mem_values_putAll {es entries : List (Value × Value)} {w : Value}
    (h : w ∈ (putAll es entries).map Prod.snd) : w ∈ es.map Prod.snd ∨ w ∈ entries.map Prod.snd := by
  induction entries generalizing es with
  | nil => exact Or.inl h
  | cons e entries ih =>
    rcases ih h with hbefore | hlater
    · exact (mem_values_putEntry hbefore).imp_right fun heq => List.mem_cons.mpr (Or.inl heq)
    · exact Or.inr (List.mem_cons_of_mem e.2 hlater)

/-! ## Values that are built -/

section Built

variable {P : Value → Prop}

theorem throughout_setOf (hset : P (setOf items)) (h : ∀ v ∈ items, v.Throughout P) : (setOf items).Throughout P :=
  throughout_iff.mpr ⟨hset, fun v hv => h v (mem_of_mem_distinct hv)⟩

theorem throughout_frozensetOf (hset : P (frozensetOf items)) (h : ∀ v ∈ items, v.Throughout P) :
    (frozensetOf items).Throughout P :=
  throughout_iff.mpr ⟨hset, fun v hv => h v (mem_of_mem_distinct hv)⟩

theorem throughout_dictOf {entries : List (Value × Value)} (hdict : P (dictOf entries))
    (h : ∀ e ∈ entries, e.1.Throughout P ∧ e.2.Throughout P) : (dictOf entries).Throughout P := by
  refine throughout_iff.mpr ⟨hdict, fun v hv => ?_⟩
  rcases List.mem_append.mp hv with hkey | hvalue
  · have hdistinct : v ∈ distinct (entries.map Prod.fst) := keys_dictOf entries ▸ hkey
    obtain ⟨e, he, rfl⟩ := List.mem_map.mp (mem_of_mem_distinct hdistinct)
    exact (h e he).1
  · obtain ⟨e, he, rfl⟩ := List.mem_map.mp ((mem_values_putAll hvalue).resolve_left List.not_mem_nil)
    exact (h e he).2

theorem keysApart_setOf (h : ∀ v ∈ items, v.KeysApart) : (setOf items).KeysApart :=
  throughout_setOf (pairwise_distinct items) h

theorem keysApart_frozensetOf (h : ∀ v ∈ items, v.KeysApart) : (frozensetOf items).KeysApart :=
  throughout_frozensetOf (pairwise_distinct items) h

theorem keysApart_dictOf {entries : List (Value × Value)} (h : ∀ e ∈ entries, e.1.KeysApart ∧ e.2.KeysApart) :
    (dictOf entries).KeysApart := by
  refine throughout_dictOf ?_ h
  have hkeys := pairwise_distinct (entries.map Prod.fst)
  rw [← keys_dictOf] at hkeys
  exact List.pairwise_map.mp hkeys

end Built

end TypeWatch.Value
