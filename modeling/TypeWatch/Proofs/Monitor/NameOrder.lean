import TypeWatch.Proofs.Monitor.Subscription
import TypeWatch.Proofs.Value.BindingOrder

/-! # Findings in the order of the names

A monitor that is shown a frame adds what it finds about the local names in their order
(`Monitor.bindings_observe`). A namespace is an ordered map, whatever was done to it, and so the findings
stand in the order in which the names were first bound since they were last absent
(`Namespace.insertion_ordered`). -/
namespace TypeWatch
set_option autoImplicit false

/-- The name that something is found about, with its value. -/
def Finding.binding (x : Finding) : String × Value := (x.name, x.value)

/-! ## Frames -/

namespace Frame

theorem binding_findingIn {f : Frame} {types : LineTypes} {b : String × Value} {x : Finding}
    (h : f.findingIn types b = some x) : x.binding = b := by
  rw [findingIn] at h
  split at h
  · rw [findingOf] at h
    split at h
    · rw [← Option.some.inj h]
      rfl
    · cases h
  · cases h

/-- What is found about local names is found in the order of the names, and once for each. -/
theorem bindings_findings (f : Frame) (types : LineTypes) : (f.findings types).map Finding.binding =
    f.locals.bindings.filter fun b => (f.findingIn types b).isSome := by
  rw [findings, List.map_filterMap, ← List.filterMap_eq_filter]
  refine congrArg (fun g => f.locals.bindings.filterMap g) (funext fun b => ?_)
  cases h : f.findingIn types b with
  | none => simp [Option.guard, h]
  | some x => simp [Option.guard, h, binding_findingIn h]

/-- Whether something is found about a binding in the module that the frame belongs to. -/
def finds (f : Frame) (table : TypeTable) (b : String × Value) : Bool :=
  (table.typesAt? f.line).any fun types => (f.findingIn types b).isSome

theorem bindings_findingsIn (f : Frame) (table : TypeTable) :
    (f.findingsIn table).map Finding.binding = f.locals.bindings.filter (f.finds table) := by
  unfold findingsIn finds
  cases table.typesAt? f.line with
  | none => simp
  | some types => exact f.bindings_findings types

end Frame

/-! ## Monitors -/

namespace Monitor

/-- Whether a monitor that is shown a frame finds something about a binding. -/
def finds (m : Monitor) (files : FileStore) (f : Frame) (b : String × Value) : Bool :=
  (m.config.observes f.file && files.contains f.file) &&
    ((m.learn files.read f.file).table? f.file).any fun table => f.finds table b

theorem bindings_check (m : Monitor) (f : Frame) :
    ∃ found, (m.check f).findings = m.findings ++ found ∧
      found.map Finding.binding =
        f.locals.bindings.filter fun b => (m.table? f.file).any fun table => f.finds table b := by
  unfold check
  cases m.table? f.file with
  | none => exact ⟨[], by simp, by simp⟩
  | some table => exact ⟨f.findingsIn table, rfl, f.bindings_findingsIn table⟩

/-- What is found in a frame is added in the order of the local names, once for each that something is found
about. -/
theorem bindings_observe (m : Monitor) (files : FileStore) (f : Frame) :
    ∃ found, (m.observe files f).findings = m.findings ++ found ∧
      found.map Finding.binding = f.locals.bindings.filter (m.finds files f) := by
  unfold observe finds
  by_cases hwatched : (m.config.observes f.file && files.contains f.file) = true
  · obtain ⟨found, hadded, hbindings⟩ := (m.learn files.read f.file).bindings_check f
    refine ⟨found, ?_, ?_⟩
    · rw [if_pos hwatched, hadded, findings_learn]
    · simpa only [hwatched, Bool.true_and] using hbindings
  · refine ⟨[], ?_, ?_⟩
    · rw [if_neg hwatched, List.append_nil]
    · simp [hwatched]

end Monitor

/-! ## Ordered maps -/

namespace Namespace

/-- Whatever is done to a namespace that is made of some bindings, no name is bound twice, each has the value
that it was last bound to, and the names stand in the order in which they were first bound since they were
last absent. Removing a name gives its value and leaves all else as it was, and binding it again changes
nothing but its value. What is found in a frame with these local names is found in their order, by the table
of its file that is known and by one that is read for it. -/
theorem insertion_ordered (start : List (String × Value)) (ops : List Operation) :
    let ns := (ofList start).afterAll ops
    ns.Reflects (insertions start ++ ops) ∧
      (∀ name, ns.contains name = true ↔ name ∈ ns.names) ∧
      (∀ name v, (name, v) ∈ ns.bindings ↔ ns.get? name = some v) ∧
      (∀ name, ns.pop name = (ns.get? name, ⟨ns.bindings.filter fun b => b.1 != name⟩)) ∧
      (∀ name v, (ns.insert name v).bindings =
        if ns.contains name then ns.bindings.map fun b => if b.1 = name then (name, v) else b
        else ns.bindings ++ [(name, v)]) ∧
      (∀ (m : Monitor) (f : Frame) (line : Nat), ∃ found, (m.check (f.at line ns)).findings = m.findings ++ found ∧
        found.map Finding.binding = ns.bindings.filter fun b =>
          (m.table? f.file).any fun table => (f.at line ns).finds table b) ∧
      ∀ (m : Monitor) (files : FileStore) (f : Frame) (line : Nat),
        ∃ found, (m.observe files (f.at line ns)).findings = m.findings ++ found ∧
          found.map Finding.binding = ns.bindings.filter (m.finds files (f.at line ns)) := by
  intro ns
  have hns : ns.Reflects (insertions start ++ ops) := reflects_afterAll start ops
  refine ⟨hns, fun name => contains_iff hns.nodup, fun name v => (get?_eq_some_iff hns.nodup).symm,
    pop_eq hns.nodup, fun name v => ?_, fun m f line => m.bindings_check (f.at line ns),
    fun m files f line => m.bindings_observe files (f.at line ns)⟩
  by_cases hname : name ∈ ns.names
  · rw [if_pos ((contains_iff hns.nodup).mpr hname), bindings_insert_of_mem hns.nodup hname]
  · rw [if_neg (mt (contains_iff hns.nodup).mp hname), bindings_insert_of_not_mem hname]

end Namespace
end TypeWatch
