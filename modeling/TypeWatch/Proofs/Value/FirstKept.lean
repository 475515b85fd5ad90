import TypeWatch.Proofs.Value.SetOrder

/-! # What sets and dictionaries keep

A set keeps the values that equal none before them (`Value.distinct_eq_firsts`), and a dictionary keeps its keys in
this way, each with the value that is last given to a key equal to it (`Value.putAll_eq_firstEntries`). A new value is
compared only to those that were kept. That it equals none of the others either follows if equality is symmetric and
transitive among all of them. -/
namespace TypeWatch.Value
set_option autoImplicit false

/-! ## First occurrences -/

/-- The values that equal none of those before them. -/
def firstsAfter (before : List Value) : List Value → List Value
  | [] => []
  | v :: vs =>
    if before.any fun w => w.equals v then firstsAfter (before ++ [v]) vs else v :: firstsAfter (before ++ [v]) vs

def firsts (items : List Value) : List Value := firstsAfter [] items

/-- The value that is last given to a key equal to this one, which has one already. -/
def lastValue (key value : Value) (entries : List (Value × Value)) : Value :=
  entries.foldl (fun last e => if key.equals e.1 then e.2 else last) value

def firstEntriesAfter (before : List Value) : List (Value × Value) → List (Value × Value)
  | [] => []
  | (k, v) :: es =>
    if before.any fun w => w.equals k then firstEntriesAfter (before ++ [k]) es
    else (k, lastValue k v es) :: firstEntriesAfter (before ++ [k]) es

/-- The keys that equal none of those before them, each with the value that is last given to a key equal to it. -/
def firstEntries (entries : List (Value × Value)) : List (Value × Value) := firstEntriesAfter [] entries

/-! ## What is compared -/

/-- Values among which equality is symmetric and transitive. -/
structure Comparable (P : Value → Prop) : Prop where
  symm : ∀ v w, P v → P w → v.equals w = true → w.equals v = true
  trans : ∀ u v w, P u → P v → P w → u.equals v = true → v.equals w = true → u.equals w = true

theorem comparable_of_roundApart {items : List Value} (hround : Number.RoundApart (NumberAmong items))
    (hkeys : ∀ v ∈ items, v.KeysApart) : Comparable (· ∈ items) where
  symm _ _ hv hw := equals_symm_of hround.trans (numbersIn_among hv) (numbersIn_among hw) (hkeys _ hv)
  trans _ _ _ hu hv hw := equals_trans_of hround.trans (numbersIn_among hu) (numbersIn_among hv) (numbersIn_among hw)

/-- What was kept of some values: of each that was not, one that is equal to it. -/
structure Kept (kept before : List Value) : Prop where
  subset : kept ⊆ before
  covered : ∀ w ∈ before, w ∈ kept ∨ ∃ u ∈ kept, u.equals w = true

section Kept

variable {P : Value → Prop} {kept before : List Value} {v : Value}

theorem Kept.nil : Kept [] [] := ⟨List.Subset.refl [], fun _ hw => absurd hw List.not_mem_nil⟩

/-- A value equals one of those that were kept if it equals any. -/
theorem Kept.any_eq (h : Kept kept before) (hP : Comparable P) (hbefore : ∀ w ∈ before, P w) (hv : P v) :
    (kept.any fun w => w.equals v) = before.any fun w => w.equals v := by
  rw [Bool.eq_iff_iff, List.any_eq_true, List.any_eq_true]
  constructor
  · rintro ⟨w, hw, hwv⟩
    exact ⟨w, h.subset hw, hwv⟩
  · rintro ⟨w, hw, hwv⟩
    rcases h.covered w hw with hkept | ⟨u, hu, huw⟩
    · exact ⟨w, hkept, hwv⟩
    · exact ⟨u, hu, hP.trans u w v (hbefore u (h.subset hu)) (hbefore w hw) hv huw hwv⟩

theorem Kept.addDistinct (h : Kept kept before) : Kept (addDistinct kept v) (before ++ [v]) := by
  refine ⟨fun w hw => ?_, fun w hw => ?_⟩
  · rcases mem_addDistinct hw with hw | rfl
    · exact List.mem_append_left _ (h.subset hw)
    · exact List.mem_append_right _ List.mem_cons_self
  · rcases List.mem_append.mp hw with hw | hw
    · have hsub := subset_addDistinct kept v
      rcases h.covered w hw with hw | ⟨u, hu, huw⟩
      · exact Or.inl (hsub hw)
      · exact Or.inr ⟨u, hsub hu, huw⟩
    · obtain rfl := List.mem_singleton.mp hw
      rw [Value.addDistinct]
      split
      · rename_i hany
        exact Or.inr (List.any_eq_true.mp hany)
      · exact Or.inl (List.mem_append_right _ List.mem_cons_self)

end Kept

/-! ## Sets -/

theorem foldl_addDistinct_eq {P : Value → Prop} (hP : Comparable P) {kept before items : List Value}
    (hkept : Kept kept before) (hall : ∀ v ∈ before ++ items, P v) :
    items.foldl addDistinct kept = kept ++ firstsAfter before items := by
  induction items generalizing kept before with
  | nil => exact (List.append_nil kept).symm
  | cons v items ih =>
    obtain ⟨hbefore, hitems⟩ := List.forall_mem_append.mp hall
    have hrest : ∀ w ∈ (before ++ [v]) ++ items, P w := by rwa [List.append_assoc]
    have hany := hkept.any_eq hP hbefore (hitems v List.mem_cons_self)
    rw [List.foldl_cons, ih hkept.addDistinct hrest, addDistinct, firstsAfter, hany]
    split
    · rfl
    · rw [List.append_assoc]
      rfl

/-- A set keeps the first occurrences of the values that it is made of. -/
theorem distinct_eq_firsts {items : List Value} (h : Comparable (· ∈ items)) : distinct items = firsts items :=
  foldl_addDistinct_eq h .nil fun _ hv => hv

/-! ## Dictionaries -/

section Dictionaries

variable {P : Value → Prop} {es entries : List (Value × Value)} {key value : Value}

/-- No two entries have a key equal to this one. -/
def SingleKey (es : List (Value × Value)) (key : Value) : Prop :=
  es.Pairwise fun e o => e.1.equals key = true → o.1.equals key = false

theorem putEntry_eq_append (h : ¬ (es.map Prod.fst).any fun w => w.equals key) :
    putEntry es key value = es ++ [(key, value)] := by
  induction es with
  | nil => rfl
  | cons e es ih =>
    obtain ⟨k, v⟩ := e
    rw [List.map_cons, List.any_cons, Bool.or_eq_true, not_or] at h
    rw [putEntry, if_neg h.1, ih h.2]
    rfl

theorem putEntry_eq_map (hsingle : SingleKey es key) (h : (es.map Prod.fst).any fun w => w.equals key) :
    putEntry es key value = es.map fun e => (e.1, if e.1.equals key then value else e.2) := by
  induction es with
  | nil => exact absurd h Bool.false_ne_true
  | cons e es ih =>
    obtain ⟨k, v⟩ := e
    obtain ⟨hfirst, hsingle⟩ := List.pairwise_cons.mp hsingle
    rw [putEntry, List.map_cons]
    split
    · rename_i hkey
      have hothers : es = es.map fun e => (e.1, if e.1.equals key then value else e.2) := by
        conv_lhs => rw [← List.map_id es]
        refine List.map_congr_left fun e he => ?_
        rw [if_neg (Bool.eq_false_iff.mp (hfirst e he hkey)), id_eq]
      rw [← hothers]
    · rename_i hkey
      rw [List.map_cons, List.any_cons, Bool.or_eq_true] at h
      rw [ih hsingle (h.resolve_left hkey)]

/-- Among keys that are apart, only one equals a key. -/
theorem singleKey_of_apart (hP : Comparable P) (hes : ∀ e ∈ es, P e.1) (hkey : P key)
    (hapart : (es.map Prod.fst).Pairwise fun v w => v.equals w = false) : SingleKey es key := by
  refine (List.pairwise_map.mp hapart).imp_of_mem fun {e o} he ho hne hekey => Bool.eq_false_iff.mpr fun hokey => ?_
  have heq := hP.trans e.1 key o.1 (hes e he) hkey (hes o ho) hekey (hP.symm o.1 key (hes o ho) hkey hokey)
  exact Bool.false_ne_true (hne.symm.trans heq)

theorem putAll_eq (hP : Comparable P) {before : List Value}
    (hapart : (es.map Prod.fst).Pairwise fun v w => v.equals w = false) (hkept : Kept (es.map Prod.fst) before)
    (hall : ∀ k ∈ before ++ entries.map Prod.fst, P k) :
    putAll es entries =
      (es.map fun e => (e.1, lastValue e.1 e.2 entries)) ++ firstEntriesAfter before entries := by
  induction entries generalizing es before with
  | nil => simp [putAll, lastValue, firstEntriesAfter]
  | cons e entries ih =>
    obtain ⟨k, v⟩ := e
    obtain ⟨hbefore, hentries⟩ := List.forall_mem_append.mp hall
    have hk : P k := hentries k List.mem_cons_self
    have hrest : ∀ w ∈ (before ++ [k]) ++ entries.map Prod.fst, P w := by rwa [List.append_assoc]
    have hany := hkept.any_eq hP hbefore hk
    have hstep := @ih (putEntry es k v) (before ++ [k])
      (by rw [keys_putEntry]; exact pairwise_addDistinct hapart)
      (by rw [keys_putEntry]; exact hkept.addDistinct) hrest
    rw [firstEntriesAfter, ← hany]
    refine hstep.trans ?_
    split
    · rename_i hthere
      have hkeys : ∀ e ∈ es, P e.1 := fun e he => hbefore e.1 (hkept.subset (List.mem_map_of_mem he))
      rw [putEntry_eq_map (singleKey_of_apart hP hkeys hk hapart) hthere, List.map_map]
      rfl
    · rename_i hnew
      have hother : ∀ e ∈ es, e.1.equals k = false := fun e he => by
        refine Bool.eq_false_iff.mpr fun heq => hnew (List.any_eq_true.mpr ?_)
        exact ⟨e.1, List.mem_map_of_mem he, heq⟩
      rw [putEntry_eq_append hnew, List.map_append, List.append_assoc]
      congr 1
      refine List.map_congr_left fun e he => ?_
      rw [lastValue, lastValue, List.foldl_cons, if_neg (Bool.eq_false_iff.mp (hother e he))]

/-- A dictionary keeps its keys where they were first given, with the values that they were last given. -/
theorem putAll_eq_firstEntries (h : Comparable (· ∈ entries.map Prod.fst)) :
    putAll [] entries = firstEntries entries :=
  putAll_eq h .nil .nil fun _ hk => hk

end Dictionaries

end TypeWatch.Value
