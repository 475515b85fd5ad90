import TypeWatch.Proofs.Value.Bindings

/-! # The order of names

A namespace shows what was done to it (`Reflects`): a name has the value that it was last bound to, unless it
was removed after that, and the names stand in the order in which each was first bound since it was last
absent. Every step keeps this (`Reflects.after`), and so does every run of steps (`Reflects.afterAll`). -/
namespace TypeWatch.Namespace
set_option autoImplicit false

/-! ## Steps -/

/-- What is done to a namespace. To bind a name in place and to bind it in a namespace that is handed on
is the same. -/
inductive Operation where
  | insert (name : String) (v : Value)
  | remove (name : String)
  | get (name : String)
  | contains (name : String)

/-- Whether a step binds or removes a name. -/
def Operation.Touches (name : String) : Operation → Prop
  | insert bound _ => bound = name
  | remove removed => removed = name
  | get _ | contains _ => False

def after (ns : Namespace) : Operation → Namespace
  | .insert name v => ns.insert name v
  | .remove name => ns.remove name
  | .get _ | .contains _ => ns

def afterAll (ns : Namespace) (ops : List Operation) : Namespace := ops.foldl after ns

/-- The steps that bind some names one after the other. -/
def insertions (bindings : List (String × Value)) : List Operation :=
  bindings.map fun b => .insert b.1 b.2

theorem ofList_eq (bindings : List (String × Value)) :
    ofList bindings = empty.afterAll (insertions bindings) := by
  rw [afterAll, insertions, List.foldl_map]
  rfl

section Step

variable {ns : Namespace} {op : Operation} {name : String}

theorem nodup_after (hnodup : ns.names.Nodup) (op : Operation) : (ns.after op).names.Nodup := by
  cases op with
  | insert bound v => exact nodup_insert hnodup bound v
  | remove removed => exact nodup_remove hnodup removed
  | get _ | contains _ => exact hnodup

theorem get?_after (hnodup : ns.names.Nodup) {v : Value} :
    (ns.after op).get? name = some v ↔
      op = .insert name v ∨ (ns.get? name = some v ∧ ¬ op.Touches name) := by
  cases op with
  | insert bound w =>
    rw [after, get?_insert]
    by_cases h : bound = name
    · simp [Operation.Touches, h]
    · simp [Operation.Touches, h, Ne.symm h]
  | remove removed =>
    rw [after, get?_remove hnodup]
    by_cases h : removed = name
    · simp [Operation.Touches, h]
    · simp [Operation.Touches, h, Ne.symm h]
  | get _ | contains _ => simp [after, Operation.Touches]

theorem mem_names_after (hnodup : ns.names.Nodup) :
    name ∈ (ns.after op).names ↔ (∃ v, op = .insert name v) ∨ (name ∈ ns.names ∧ op ≠ .remove name) := by
  cases op with
  | insert bound w =>
    rw [after]
    by_cases h : bound ∈ ns.names
    · rw [names_insert_of_mem hnodup h]
      refine ⟨fun hname => Or.inr ⟨hname, by simp⟩, ?_⟩
      rintro (⟨v, hop⟩ | ⟨hname, -⟩)
      · obtain ⟨rfl, -⟩ := Operation.insert.inj hop
        exact h
      · exact hname
    · simp [names_insert_of_not_mem h, or_comm, eq_comm]
  | remove removed =>
    rw [after, names_remove hnodup, List.mem_filter, bne_iff_ne, ne_comm]
    simp
  | get _ | contains _ => simp [after]

end Step

/-! ## Histories -/

/-- In a history, a name was bound to this value, and neither bound nor removed after that. -/
def LastBound (history : List Operation) (name : String) (v : Value) : Prop :=
  ∃ before later, history = before ++ .insert name v :: later ∧ ∀ op ∈ later, ¬ op.Touches name

def Absent (history : List Operation) (name : String) : Prop := ∀ v, ¬ LastBound history name v

/-- In a history, a name that was absent was bound by the step with this number, and not removed after it. -/
def BoundSince (history : List Operation) (name : String) (moment : Nat) : Prop :=
  ∃ before v later, history = before ++ .insert name v :: later ∧ before.length = moment ∧
    Absent before name ∧ .remove name ∉ later

section History

variable {history before later : List Operation} {op last : Operation} {name : String} {moment : Nat}

/-- A step of a history is its last one or one before that. -/
theorem snoc_eq_iff : history ++ [last] = before ++ op :: later ↔
    (history = before ∧ last = op ∧ later = []) ∨
      ∃ rest, history = before ++ op :: rest ∧ later = rest ++ [last] := by
  rcases List.eq_nil_or_concat later with rfl | ⟨rest, o, rfl⟩
  · simp
  · rw [List.concat_eq_append, ← List.cons_append, ← List.append_assoc]
    constructor
    · intro heq
      obtain ⟨rfl, hlast⟩ := List.append_inj' heq rfl
      exact Or.inr ⟨rest, rfl, by rw [List.cons.inj hlast |>.1]⟩
    · rintro (⟨-, -, hnil⟩ | ⟨rest', rfl, hlater⟩)
      · simp at hnil
      · obtain ⟨rfl, hlast⟩ := List.append_inj' hlater rfl
        rw [hlast]

theorem lastBound_snoc {v : Value} : LastBound (history ++ [op]) name v ↔
    op = .insert name v ∨ (LastBound history name v ∧ ¬ op.Touches name) := by
  constructor
  · rintro ⟨before, later, heq, hlater⟩
    rcases snoc_eq_iff.mp heq with ⟨-, hop, -⟩ | ⟨rest, hhistory, rfl⟩
    · exact Or.inl hop
    · obtain ⟨hrest, hop⟩ := List.forall_mem_append.mp hlater
      exact Or.inr ⟨⟨before, rest, hhistory, hrest⟩, hop op List.mem_cons_self⟩
  · rintro (rfl | ⟨⟨before, later, rfl, hlater⟩, hop⟩)
    · exact ⟨history, [], rfl, fun _ hmem => absurd hmem List.not_mem_nil⟩
    · refine ⟨before, later ++ [op], by simp, List.forall_mem_append.mpr ⟨hlater, ?_⟩⟩
      simpa using hop

theorem boundSince_snoc : BoundSince (history ++ [op]) name moment ↔
    ((∃ v, op = .insert name v) ∧ history.length = moment ∧ Absent history name) ∨
      (BoundSince history name moment ∧ op ≠ .remove name) := by
  constructor
  · rintro ⟨before, v, later, heq, hmoment, habsent, hlater⟩
    rcases snoc_eq_iff.mp heq with ⟨rfl, hop, -⟩ | ⟨rest, hhistory, rfl⟩
    · exact Or.inl ⟨⟨v, hop⟩, hmoment, habsent⟩
    · rw [List.mem_append, not_or, List.mem_singleton] at hlater
      exact Or.inr ⟨⟨before, v, rest, hhistory, hmoment, habsent, hlater.1⟩, Ne.symm hlater.2⟩
  · rintro (⟨⟨v, rfl⟩, hmoment, habsent⟩ | ⟨⟨before, v, later, rfl, hmoment, habsent, hlater⟩, hop⟩)
    · exact ⟨history, v, [], rfl, hmoment, habsent, List.not_mem_nil⟩
    · refine ⟨before, v, later ++ [op], by simp, hmoment, habsent, ?_⟩
      rw [List.mem_append, not_or, List.mem_singleton]
      exact ⟨hlater, Ne.symm hop⟩

theorem BoundSince.lt_length (h : BoundSince history name moment) : moment < history.length := by
  obtain ⟨before, v, later, rfl, rfl, -, -⟩ := h
  rw [List.length_append, List.length_cons]
  omega

end History

/-! ## What a namespace shows of its history -/

/-- The names of a namespace are those that a history has bound and not removed, each with its last value,
in the order in which they were first bound since they were last absent. -/
structure Reflects (ns : Namespace) (history : List Operation) : Prop where
  nodup : ns.names.Nodup
  value : ∀ name v, ns.get? name = some v ↔ LastBound history name v
  bound : ∀ name, name ∈ ns.names ↔ ∃ moment, BoundSince history name moment
  ordered : ns.names.Pairwise fun name other =>
    ∀ i j, BoundSince history name i → BoundSince history other j → i < j

theorem reflects_empty : empty.Reflects [] where
  nodup := List.nodup_nil
  value name v := by simp [empty, get?, LastBound]
  bound name := by simp [empty, names, BoundSince]
  ordered := List.Pairwise.nil

namespace Reflects

variable {ns : Namespace} {history : List Operation} {op : Operation} {name : String} {moment : Nat}

theorem absent_iff (h : ns.Reflects history) : Absent history name ↔ name ∉ ns.names := by
  rw [mem_names_iff h.nodup, not_exists, Absent]
  exact forall_congr' fun v => not_congr (h.value name v).symm

/-- A step gives a name no other place among those that were there. -/
theorem moment_of_mem (h : ns.Reflects history) (hname : name ∈ ns.names)
    (hsince : BoundSince (history ++ [op]) name moment) : BoundSince history name moment := by
  rcases boundSince_snoc.mp hsince with ⟨-, -, habsent⟩ | ⟨hsince, -⟩
  · exact absurd hname (h.absent_iff.mp habsent)
  · exact hsince

/-- A name that is bound anew comes after all others. -/
theorem moment_of_not_mem (h : ns.Reflects history) (hname : name ∉ ns.names)
    (hsince : BoundSince (history ++ [op]) name moment) : moment = history.length := by
  rcases boundSince_snoc.mp hsince with ⟨-, hmoment, -⟩ | ⟨hsince, -⟩
  · exact hmoment.symm
  · exact absurd ((h.bound name).mpr ⟨moment, hsince⟩) hname

/-- The names that were there and are there after a step stand in their order. -/
theorem ordered_of_sublist (h : ns.Reflects history) (op : Operation) {kept : List String}
    (hkept : kept.Sublist ns.names) : kept.Pairwise fun name other =>
      ∀ i j, BoundSince (history ++ [op]) name i → BoundSince (history ++ [op]) other j → i < j := by
  refine (h.ordered.sublist hkept).imp_of_mem fun hname hother hlt i j hi hj => ?_
  exact hlt i j (h.moment_of_mem (hkept.subset hname) hi) (h.moment_of_mem (hkept.subset hother) hj)

theorem ordered_after (h : ns.Reflects history) (op : Operation) : (ns.after op).names.Pairwise fun name other =>
    ∀ i j, BoundSince (history ++ [op]) name i → BoundSince (history ++ [op]) other j → i < j := by
  cases op with
  | insert bound v =>
    rw [after]
    by_cases hbound : bound ∈ ns.names
    · rw [names_insert_of_mem h.nodup hbound]
      exact h.ordered_of_sublist _ (List.Sublist.refl _)
    · rw [names_insert_of_not_mem hbound]
      have hold := h.ordered_of_sublist (.insert bound v) (List.Sublist.refl _)
      refine List.pairwise_append.mpr ⟨hold, List.pairwise_singleton _ _, ?_⟩
      intro name hname other hother i j hi hj
      obtain rfl := List.mem_singleton.mp hother
      rw [h.moment_of_not_mem hbound hj]
      exact (h.moment_of_mem hname hi).lt_length
  | remove removed =>
    rw [after, names_remove h.nodup]
    exact h.ordered_of_sublist _ List.filter_sublist
  | get _ | contains _ => exact h.ordered_of_sublist _ (List.Sublist.refl _)

theorem bound_after (h : ns.Reflects history) (op : Operation) (name : String) :
    name ∈ (ns.after op).names ↔ ∃ moment, BoundSince (history ++ [op]) name moment := by
  simp only [mem_names_after h.nodup, boundSince_snoc]
  constructor
  · rintro (hop | ⟨hname, hop⟩)
    · by_cases hname : name ∈ ns.names
      · obtain ⟨moment, hsince⟩ := (h.bound name).mp hname
        obtain ⟨v, rfl⟩ := hop
        exact ⟨moment, Or.inr ⟨hsince, by simp⟩⟩
      · exact ⟨history.length, Or.inl ⟨hop, rfl, h.absent_iff.mpr hname⟩⟩
    · obtain ⟨moment, hsince⟩ := (h.bound name).mp hname
      exact ⟨moment, Or.inr ⟨hsince, hop⟩⟩
  · rintro ⟨moment, ⟨hop, -, -⟩ | ⟨hsince, hop⟩⟩
    · exact Or.inl hop
    · exact Or.inr ⟨(h.bound name).mpr ⟨moment, hsince⟩, hop⟩

theorem after (h : ns.Reflects history) (op : Operation) : (ns.after op).Reflects (history ++ [op]) where
  nodup := nodup_after h.nodup op
  value name v := by rw [get?_after h.nodup, lastBound_snoc, h.value]
  bound := h.bound_after op
  ordered := h.ordered_after op

theorem afterAll (h : ns.Reflects history) (ops : List Operation) :
    (ns.afterAll ops).Reflects (history ++ ops) := by
  induction ops generalizing ns history with
  | nil => rwa [List.append_nil]
  | cons op ops ih =>
    have hrest := ih (h.after op)
    rwa [List.append_assoc] at hrest

end Reflects

/-- Names that are bound one after the other, and then whatever is done to the namespace. -/
theorem reflects_afterAll (start : List (String × Value)) (ops : List Operation) :
    ((ofList start).afterAll ops).Reflects (insertions start ++ ops) := by
  have hstart : (ofList start).Reflects (insertions start) := by
    rw [ofList_eq]
    exact reflects_empty.afterAll (insertions start)
  exact hstart.afterAll ops

/-- A name that is bound again keeps its place, and one that was removed before has lost it. -/
example : ((ofList [("b", .int 1), ("a", .int 2), ("c", .int 3)]).afterAll
    [.insert "b" (.int 4), .remove "a", .get "a", .insert "a" (.int 5)]).names = ["b", "c", "a"] := by decide

end TypeWatch.Namespace
