import Mathlib
import TypeWatch.Proofs.File.Path
import TypeWatch.Proofs.Monitor.Subscription

/-! # What monitors record

The findings of a monitor are those in the frames that it was shown since its last session was begun, in
order (`findings_eq_sightings`). Frames are checked if their file is there and is to be watched
(`watches_pathTo`), and the tables against which they are checked are those of the files as they were
first read since the last session was ended. -/
namespace TypeWatch
set_option autoImplicit false

/-! ## One move -/

namespace Watch

theorem item?_enter (w : Watch) (k n : Nat) :
    (w.enter k).monitors.item? n =
      if k = n then (w.monitors.item? n).map fun m => m.begun w.registry.next
      else w.monitors.item? n := by
  rw [enter, Catalogue.item?_modify]

theorem item?_release (w : Watch) (g : Guard) (n : Nat) :
    (w.release g).monitors.item? n =
      if w.isLive n g then (w.monitors.item? n).map Monitor.ended else w.monitors.item? n := by
  by_cases hg : g.monitor = n
  · subst hg
    by_cases hs : w.sessionOf g.monitor = some g.session
    · simp [release, isLive, hs, leave, Catalogue.item?_modify]
    · simp [release, isLive, hs]
  · unfold release
    split
    · simp [isLive, hg, leave, Catalogue.item?_modify]
    · simp [isLive, hg]

/-- What giving up a guard is to a monitor. -/
theorem item?_endedWith (w : Watch) (g : Guard) (id : SubscriptionId) (n : Nat) :
    (w.release g).monitors.item? n =
      (w.monitors.item? n).map fun m => m.takeAll id (w.endedWith n (some g)) := by
  rw [item?_release, endedWith]
  by_cases h : w.isLive n g = true
  · simp only [h, if_true]
    rfl
  · simp [h, Monitor.takeAll]

theorem item?_begunBy (w : Watch) (k n : Nat) (hs : w.sessionOf k = none) :
    (w.enter k).monitors.item? n =
      (w.monitors.item? n).map fun m => m.takeAll w.registry.next (w.begunBy n k) := by
  rw [item?_enter, begunBy]
  by_cases h : k = n
  · subst h
    simp only [isTracing, hs, Option.isSome_none, and_self, if_true]
    rfl
  · simp [h, Monitor.takeAll]

/-- A guard that was held before a session was begun is none of the new session. -/
theorem isLive_enter {w : Watch} {k : Nat} (hk : k < w.monitors.items.length) (hs : w.sessionOf k = none)
    (g : Guard) (hg : g.session < w.registry.next) (n : Nat) :
    (w.enter k).isLive n g = w.isLive n g := by
  rw [isLive, isLive, sessionOf_enter w k n hk]
  by_cases hn : k = n
  · subst hn
    have hne : w.registry.next ≠ g.session := Nat.ne_of_gt hg
    simp [hs, hne]
  · simp [hn]

theorem item?_hold {w : Watch} (h : w.Sound) {k : Nat} (hk : k < w.monitors.items.length)
    (hs : w.sessionOf k = none) (guard : String) (n : Nat) :
    ((w.enter k).hold guard ⟨k, w.registry.next⟩).monitors.item? n =
      (w.monitors.item? n).map fun m =>
        m.takeAll w.registry.next (w.begunBy n k ++ w.endedWith n (w.guards.lookup guard)) := by
  rw [hold, show (w.enter k).guards = w.guards from rfl]
  cases hold : w.guards.lookup guard with
  | none => simpa [endedWith] using item?_begunBy w k n hs
  | some old =>
    have hlive := isLive_enter hk hs old (h.guards guard old hold) n
    simp only
    rw [item?_endedWith _ old w.registry.next n]
    rw [show ∀ gs, ({ w.enter k with guards := gs } : Watch).endedWith n (some old) =
      w.endedWith n (some old) from fun gs => by
        simp only [endedWith]
        rw [show ({ w.enter k with guards := gs } : Watch).isLive n old = (w.enter k).isLive n old from rfl,
          hlive]]
    rw [show ∀ gs, ({ w.enter k with guards := gs } : Watch).monitors = (w.enter k).monitors from
      fun _ => rfl, item?_begunBy w k n hs, Option.map_map]
    simp [Function.comp_def, Monitor.takeAll]

/-- What becomes of a monitor in a move is what its notes say, unless the move makes the monitor. -/
theorem item?_after {w : Watch} (h : w.Sound) {move : Move} (hm : w.Allows move) {n : Nat}
    (hn : ∀ name c, move = .act (.create name c) → n ≠ w.monitors.items.length) :
    (w.after move).monitors.item? n =
      (w.monitors.item? n).map fun m => m.takeAll w.registry.next (w.notes n move) := by
  have hnone : (w.monitors.item? n).map (fun m => m.takeAll w.registry.next []) = w.monitors.item? n := by
    simp [Monitor.takeAll]
  cases move with
  | enter k => exact item?_begunBy w k n hm.2
  | leave g => exact item?_endedWith w g _ n
  | act action =>
    have hacts := w.acts_act action
    rw [after]
    generalize (w.act action).2 = v at hacts ⊢
    cases hacts with
    | create name c =>
      refine Eq.trans ?_ hnone.symm
      simp only [Catalogue.item?_add, hn name c rfl, if_false]
    | @enter name k hk hs =>
      simp only [notes, hk, Option.some.injEq, item?_begunBy w k n hs]
      by_cases hkn : k = n <;> simp [hkn, begunBy]
    | @leave name k id hk hs =>
      simp only [notes, hk, Option.some.injEq, leave, Catalogue.item?_modify]
      by_cases hkn : k = n
      · subst hkn
        have ht : w.isTracing k = true := by simp [isTracing, hs]
        simp only [ht, and_self, if_true]
        rfl
      · simpa [hkn] using hnone.symm
    | @hold guard name k hk hs =>
      simp only [notes, hk]
      rw [item?_hold h (h.named name k hk) hs]
      simp [isTracing, hs]
    | drop guard =>
      simp only [drop, notes]
      cases hg : w.guards.lookup guard with
      | none => exact hnone.symm
      | some g => exact item?_endedWith _ g _ n
    | emit e =>
      simp only [notes, item?_emit h]
      by_cases ht : w.isTracing n = true
      · simp only [ht, if_true]
        rfl
      · simpa [ht] using hnone.symm
    | @inspect name k frame hk =>
      simp only [notes, hk, Catalogue.item?_modify, Option.some.injEq]
      by_cases hkn : k = n
      · simp only [hkn, if_true]
        rfl
      · simpa [hkn] using hnone.symm
    | nothing hi => rw [notes_of_ignores hi, hnone]
    | _ => exact hnone.symm

/-- A monitor stays there, and what it is to watch stays the same. -/
theorem exists_item?_afterAll {w : Watch} (h : w.Sound) {moves : List Move} (hm : w.AllowsAll moves)
    {n : Nat} {m : Monitor} (hn : w.monitors.item? n = some m) :
    ∃ m', (w.afterAll moves).monitors.item? n = some m' ∧ m'.config = m.config := by
  induction moves generalizing w m with
  | nil => exact ⟨m, hn, rfl⟩
  | cons move moves ih =>
    have hlt := (w.monitors.item?_isSome n).mp (by rw [hn]; rfl)
    have hafter := item?_after h hm.1 (n := n) fun _ _ _ => Nat.ne_of_lt hlt
    rw [hn, Option.map_some] at hafter
    obtain ⟨m', hm', hconfig⟩ := ih (h.after hm.1) hm.2 hafter
    exact ⟨m', hm', hconfig.trans (m.config_takeAll _ _)⟩

/-! ## Events of a session -/

/-- The moves that some events are. -/
def emits (events : List Event) : List Move := events.map fun e => .act (.emit e)

/-- What no event changes, some events do not change. -/
theorem afterAll_emits_same {β : Type} (f : Watch → β) (hf : ∀ w e, f (w.emit e) = f w) (w : Watch)
    (events : List Event) : f (w.afterAll (emits events)) = f w := by
  induction events generalizing w with
  | nil => rfl
  | cons e events ih => exact (ih (w.emit e)).trans (hf w e)

/-- A monitor in a session is shown the frames of all events. -/
theorem notesAll_emits {w : Watch} {n : Nat} (ht : w.isTracing n = true) (events : List Event) :
    w.notesAll n (emits events) = events.map fun e => .shown w.files e.frame := by
  induction events generalizing w with
  | nil => rfl
  | cons e events ih =>
    have hafter : (w.emit e).isTracing n = true := by rw [isTracing, sessionOf_emit, ← isTracing, ht]
    rw [List.map_cons, ← files_emit w e, ← ih hafter, files_emit]
    show w.notes n (.act (.emit e)) ++ _ = _
    rw [notes, if_pos ht]
    rfl

end Watch

/-! ## Findings in a frame -/

/-- What is found about the local names of a frame whose types are declared on its line, in the order of
the names. Nothing is found about a name as long as a name in its type has no value. -/
def Frame.declaredFindings (f : Frame) (table : TypeTable) : List Finding :=
  f.locals.bindings.filterMap fun (name, value) =>
    match table.get? f.line name with
    | none => none
    | some type =>
      match value.verdict f.environment type with
      | .ok verdict => some ⟨f.file, f.line, name, value, type, verdict⟩
      | .error _ => none

theorem Frame.findingsIn_eq (f : Frame) (table : TypeTable) :
    f.findingsIn table = f.declaredFindings table := by
  unfold Frame.findingsIn Frame.declaredFindings
  cases h : table.typesAt? f.line with
  | none => simp [TypeTable.get?, h]
  | some types =>
    refine congrArg (fun g => f.locals.bindings.filterMap g) (funext fun b => ?_)
    simp only [TypeTable.get?, h, Option.bind_some, Frame.findingIn, Frame.findingOf]
    cases (types.lookup b.1).join <;> rfl

/-! ## What has happened to a monitor -/

/-- Whether a frame is checked while the files are as given. -/
def Config.watches (c : Config) (files : FileStore) (f : Frame) : Bool :=
  c.observes f.file && files.contains f.file

/-- A frame of the file at some place is checked if the path of the place has the prefix and leads through
directories to something. -/
theorem Config.watches_pathTo (c : Config) (files : FileStore) {f : Frame} {place : Place}
    (hfile : f.file = FileStore.pathTo place) (hroot : place ≠ [])
    (h : ∀ name ∈ place, FileStore.Fits name) :
    c.watches files f = true ↔ (∃ rest, FileStore.pathTo place = c.pathPrefix ++ rest) ∧
      ∀ outer name, outer ++ [name] <+: place →
        files.isDirectory outer = true ∧ (files.entryAt? (outer ++ [name])).isSome = true := by
  rw [watches, Bool.and_eq_true, hfile, c.observes_iff, files.contains_pathTo hroot h]

/-- A file that is named from the working directory is there if it is there by its path from the root. The
prefix goes by the name that the frame gives. -/
theorem Config.watches_of_relative (c : Config) (files : FileStore) {f : Frame} (hne : f.file ≠ "")
    (hrelative : f.file.toList.head? ≠ some '/') (h : ∀ name ∈ files.working, FileStore.Fits name)
    (hworking : files.working.foldlM files.enter [] = .ok files.working) :
    c.watches files f = (c.observes f.file &&
      files.contains (FileStore.pathTo files.working ++ "/" ++ f.file)) := by
  rw [watches, FileStore.contains, FileStore.contains, files.find_pathTo_working hne hrelative h hworking]

/-- The files as they were when a file was first read since the last session was ended, if it was read
since. The notes are given from the latest to the first. -/
def Note.firstRead (c : Config) (file : String) : List Note → Option FileStore
  | [] => none
  | .ended :: _ => none
  | .begun :: past => firstRead c file past
  | .shown files frame :: past =>
    match firstRead c file past with
    | some first => some first
    | none => if c.watches files frame && frame.file == file then some files else none

/-- A frame that a monitor was shown, and what had happened to the monitor before. -/
structure Sighting where
  files : FileStore
  frame : Frame
  past : List Note

/-- The frames that were shown since the last session was begun, in order. The notes are given from the
latest to the first. -/
def Note.sightings : List Note → List Sighting
  | [] => []
  | .begun :: _ => []
  | .ended :: past => sightings past
  | .shown files frame :: past => sightings past ++ [⟨files, frame, past⟩]

namespace Sighting

/-- The table of the file of the frame, as the file was first read. -/
def table (c : Config) (s : Sighting) : Except SourceError TypeTable :=
  TypeTable.ofFile ((Note.firstRead c s.frame.file s.past).getD s.files).read s.frame.file

/-- What is found in the frame. -/
def findings (c : Config) (s : Sighting) : List Finding :=
  if c.watches s.files s.frame then
    match s.table c with
    | .ok table => s.frame.declaredFindings table
    | .error _ => []
  else []

/-- The error of a file that is read for the frame and has no table. -/
def failure? (c : Config) (s : Sighting) : Option SourceError :=
  if c.watches s.files s.frame && (Note.firstRead c s.frame.file s.past).isNone then
    match s.table c with
    | .ok _ => none
    | .error e => some e
  else none

end Sighting

/-! ## The invariant -/

/-- What a monitor holds is what has happened to it, from the latest to the first. -/
structure Monitor.Holds (m : Monitor) (past : List Note) : Prop where
  findings : m.findings = (Note.sightings past).flatMap (Sighting.findings m.config)
  errors : m.errors = (Note.sightings past).filterMap (Sighting.failure? m.config)
  tables : ∀ file, m.tables.lookup file =
    (Note.firstRead m.config file past).map fun files => (TypeTable.ofFile files.read file).toOption

namespace Monitor

theorem holds_ofConfig (c : Config) : (ofConfig c).Holds [] :=
  ⟨rfl, rfl, fun _ => rfl⟩

theorem Holds.begun {m : Monitor} {past : List Note} (h : m.Holds past) (id : SubscriptionId) :
    (m.begun id).Holds (.begun :: past) :=
  ⟨rfl, rfl, h.tables⟩

theorem Holds.ended {m : Monitor} {past : List Note} (h : m.Holds past) : m.ended.Holds (.ended :: past) :=
  ⟨h.findings, h.errors, fun _ => rfl⟩

/-- The table of a file that is made known is that of the file as it was first read. -/
theorem Holds.learn_table? {m : Monitor} {past : List Note} (h : m.Holds past) (files : FileStore)
    (file : String) :
    (m.learn files.read file).table? file =
      (TypeTable.ofFile ((Note.firstRead m.config file past).getD files).read file).toOption := by
  have hl := h.tables file
  unfold learn
  cases hr : Note.firstRead m.config file past with
  | some first =>
    rw [hr, Option.map_some] at hl
    simp only [hl, table?, Option.join_some, Option.getD_some]
  | none =>
    rw [hr, Option.map_none] at hl
    simp only [hl, Option.getD_none]
    cases TypeTable.ofFile files.read file <;> simp [remember, table?, Except.toOption]

theorem Holds.learn_errors {m : Monitor} {past : List Note} (h : m.Holds past) (files : FileStore)
    (f : Frame) (hw : m.config.watches files f = true) :
    (m.learn files.read f.file).errors =
      m.errors ++ ((Sighting.mk files f past).failure? m.config).toList := by
  have hl := h.tables f.file
  unfold learn
  cases hr : Note.firstRead m.config f.file past with
  | some first =>
    rw [hr, Option.map_some] at hl
    simp [hl, Sighting.failure?, hr]
  | none =>
    rw [hr, Option.map_none] at hl
    simp only [hl, Sighting.failure?, hr, hw, Option.isNone_none, Bool.and_self, if_true,
      Sighting.table, Option.getD_none]
    cases TypeTable.ofFile files.read f.file <;> simp [remember]

theorem Holds.learn_lookup {m : Monitor} {past : List Note} (h : m.Holds past) (files : FileStore)
    (f : Frame) (hw : m.config.watches files f = true) (file : String) :
    (m.learn files.read f.file).tables.lookup file =
      (Note.firstRead m.config file (.shown files f :: past)).map fun files =>
        (TypeTable.ofFile files.read file).toOption := by
  have hl := h.tables f.file
  have hfile := h.tables file
  rw [Note.firstRead, hw, Bool.true_and]
  unfold learn
  cases hr : Note.firstRead m.config f.file past with
  | some first =>
    rw [hr, Option.map_some] at hl
    simp only [hl, hfile]
    cases hr' : Note.firstRead m.config file past with
    | some first' => rfl
    | none =>
      have hne : (f.file == file) = false := by
        refine beq_eq_false_iff_ne.mpr fun he => ?_
        rw [← he, hr] at hr'
        simp at hr'
      simp [hne]
  | none =>
    rw [hr, Option.map_none] at hl
    have hput : (m.remember f.file (TypeTable.ofFile files.read f.file)).tables.lookup file =
        if file = f.file then some (TypeTable.ofFile files.read f.file).toOption
        else m.tables.lookup file := by
      cases TypeTable.ofFile files.read f.file <;>
        simp [remember, lookup_cons_if, Except.toOption]
    simp only [hl, hput]
    by_cases he : file = f.file
    · rw [if_pos he, he, hr]
      simp
    · rw [if_neg he, hfile]
      have hne : (f.file == file) = false := beq_eq_false_iff_ne.mpr (Ne.symm he)
      cases Note.firstRead m.config file past <;> simp [hne]

/-- A frame that is not checked leaves nothing behind. -/
theorem Holds.overlook {m : Monitor} {past : List Note} (h : m.Holds past) (files : FileStore) (f : Frame)
    (hw : m.config.watches files f = false) : m.Holds (.shown files f :: past) := by
  have hfound : (Sighting.mk files f past).findings m.config = [] := by simp [Sighting.findings, hw]
  have hfailed : (Sighting.mk files f past).failure? m.config = none := by
    simp [Sighting.failure?, hw]
  refine ⟨?_, ?_, ?_⟩
  · rw [Note.sightings, List.flatMap_append, List.flatMap_singleton, hfound, List.append_nil]
    exact h.findings
  · rw [Note.sightings, List.filterMap_append, List.filterMap_cons_none hfailed, List.filterMap_nil,
      List.append_nil]
    exact h.errors
  · intro file
    rw [Note.firstRead, h.tables]
    cases Note.firstRead m.config file past <;> simp [hw]

theorem config_check (m : Monitor) (f : Frame) : (m.check f).config = m.config := by
  unfold check; split <;> rfl

theorem errors_check (m : Monitor) (f : Frame) : (m.check f).errors = m.errors := by
  unfold check; split <;> rfl

theorem tables_check (m : Monitor) (f : Frame) : (m.check f).tables = m.tables := by
  unfold check; split <;> rfl

theorem findings_check (m : Monitor) (f : Frame) :
    (m.check f).findings = m.findings ++ ((m.table? f.file).map f.declaredFindings).getD [] := by
  unfold check
  cases m.table? f.file <;> simp [Frame.findingsIn_eq]

/-- A frame that is shown is checked against the table of its file, if it is to be checked. -/
theorem Holds.observe {m : Monitor} {past : List Note} (h : m.Holds past) (files : FileStore) (f : Frame) :
    (m.observe files f).Holds (.shown files f :: past) := by
  unfold Monitor.observe
  rw [show (m.config.observes f.file && files.contains f.file) = m.config.watches files f from rfl]
  cases hw : m.config.watches files f with
  | false => exact h.overlook files f hw
  | true =>
    simp only [if_true]
    have hfound : (Sighting.mk files f past).findings m.config =
        (((m.learn files.read f.file).table? f.file).map f.declaredFindings).getD [] := by
      rw [h.learn_table?]
      simp only [Sighting.findings, hw, if_true, Sighting.table]
      cases TypeTable.ofFile ((Note.firstRead m.config f.file past).getD files).read f.file <;> rfl
    refine ⟨?_, ?_, ?_⟩
    · rw [findings_check, findings_learn, config_check, config_learn, Note.sightings,
        List.flatMap_append, List.flatMap_singleton, hfound, ← h.findings]
    · rw [errors_check, h.learn_errors files f hw, config_check, config_learn, Note.sightings,
        List.filterMap_append, ← h.errors]
      cases hf : (Sighting.mk files f past).failure? m.config <;> simp [hf]
    · intro file
      rw [tables_check, config_check, config_learn]
      exact h.learn_lookup files f hw file

theorem Holds.takeAll {m : Monitor} {past : List Note} (h : m.Holds past) (id : SubscriptionId)
    (notes : List Note) : (m.takeAll id notes).Holds (notes.reverse ++ past) := by
  induction notes generalizing m past with
  | nil => exact h
  | cons note notes ih =>
    rw [List.reverse_cons, List.append_assoc, List.singleton_append]
    cases note with
    | begun => exact ih (h.begun id)
    | ended => exact ih h.ended
    | shown files f => exact ih (h.observe files f)

end Monitor

/-! ## Runs -/

namespace Watch

theorem endedWith_eq_nil {w : Watch} {n : Nat} (hn : w.monitors.items.length ≤ n) (g : Option Guard) :
    w.endedWith n g = [] := by
  cases g with
  | none => rfl
  | some g => simp [endedWith, isLive, w.sessionOf_of_length_le n hn]

theorem begunBy_eq_nil {w : Watch} {n k : Nat} (hn : w.monitors.items.length ≤ n)
    (hk : k < w.monitors.items.length) : w.begunBy n k = [] := by
  rw [begunBy, if_neg]
  rintro ⟨rfl, -⟩
  omega

/-- Nothing happens to a monitor before it is made. -/
theorem notes_eq_nil {w : Watch} (h : w.Sound) {move : Move} (hm : w.Allows move) {n : Nat}
    (hn : w.monitors.items.length ≤ n) : w.notes n move = [] := by
  have hname (name : String) : ¬ w.monitors.number? name = some n := fun hk => by
    have := h.named name n hk
    omega
  have hidle : w.isTracing n = false := by rw [isTracing, w.sessionOf_of_length_le n hn]; rfl
  cases move with
  | enter k => exact begunBy_eq_nil hn hm.1
  | leave g => exact endedWith_eq_nil hn (some g)
  | act action =>
    cases action with
    | start name => simp [notes, hname]
    | stop name => simp [notes, hname]
    | hold guard name =>
      simp only [notes]
      cases hk : w.monitors.number? name with
      | none => rfl
      | some k => simp [begunBy_eq_nil hn (h.named name k hk), endedWith_eq_nil hn]
    | drop guard => exact endedWith_eq_nil hn _
    | emit event => simp [notes, hidle]
    | inspect name frame => simp [notes, hname]
    | _ => rfl

theorem length_le_after {w : Watch} (h : w.Sound) {move : Move} (hm : w.Allows move) :
    w.monitors.items.length ≤ (w.after move).monitors.items.length := by
  refine Nat.le_of_not_lt fun hlt => ?_
  -- a monitor that was there is there
  obtain ⟨m, hsome⟩ := Option.isSome_iff_exists.mp
    ((w.monitors.item?_isSome (w.after move).monitors.items.length).mpr hlt)
  have hafter := item?_after h hm (n := (w.after move).monitors.items.length)
    (fun _ _ _ => Nat.ne_of_lt hlt)
  rw [hsome] at hafter
  have hthere := ((w.after move).monitors.item?_isSome _).mp (by rw [hafter]; rfl)
  exact Nat.lt_irrefl _ hthere

/-- Every monitor of a watch holds what has happened to it, where `past` gives the notes of each monitor
from the latest to the first. -/
def AllHold (w : Watch) (past : Nat → List Note) : Prop :=
  (∀ n m, w.monitors.item? n = some m → m.Holds (past n)) ∧
    ∀ n, w.monitors.items.length ≤ n → past n = []

theorem AllHold.after {w : Watch} {past : Nat → List Note} (ha : w.AllHold past) (h : w.Sound)
    {move : Move} (hm : w.Allows move) :
    (w.after move).AllHold fun n => (w.notes n move).reverse ++ past n := by
  refine ⟨?_, ?_⟩
  · intro n m' hm'
    by_cases hnew : ∃ name c, move = .act (.create name c) ∧ n = w.monitors.items.length
    · obtain ⟨name, c, rfl, rfl⟩ := hnew
      simp only [Watch.after, act, Catalogue.item?_add, if_true, Option.some.injEq] at hm'
      simp only [notes_eq_nil h hm (Nat.le_refl _), ha.2 _ (Nat.le_refl _), ← hm']
      exact Monitor.holds_ofConfig c
    · rw [item?_after h hm fun name c hmove hn => hnew ⟨name, c, hmove, hn⟩] at hm'
      obtain ⟨m, hsome, rfl⟩ := Option.map_eq_some_iff.mp hm'
      exact (ha.1 n m hsome).takeAll _ _
  · intro n hn
    have hle := length_le_after h hm
    simp only [notes_eq_nil h hm (Nat.le_trans hle hn), ha.2 n (Nat.le_trans hle hn)]
    rfl

theorem AllHold.afterAll {w : Watch} {past : Nat → List Note} (ha : w.AllHold past) (h : w.Sound)
    {moves : List Move} (hm : w.AllowsAll moves) :
    (w.afterAll moves).AllHold fun n => (w.notesAll n moves).reverse ++ past n := by
  induction moves generalizing w past with
  | nil => exact ha
  | cons move moves ih =>
    have hrest := ih (ha.after h hm.1) (h.after hm.1) hm.2
    simpa [notesAll, List.append_assoc] using hrest

/-- What has happened to a monitor by some moves of a new watch, from the latest to the first. -/
def past (files : FileStore) (moves : List Move) (n : Nat) : List Note :=
  ((start files).notesAll n moves).reverse

/-- At every point of a run, a monitor holds what has happened to it. -/
theorem holds_past (files : FileStore) (steps : List Step) {moves : List Move}
    (hp : moves <+: movesAll (start files) steps) {n : Nat} {m : Monitor}
    (hm : ((start files).afterAll moves).monitors.item? n = some m) : m.Holds (past files moves n) := by
  have hsound := Sound.start files
  have hall : (start files).AllHold fun _ => [] :=
    ⟨fun n m hn => by simp [start, Catalogue.empty, Catalogue.item?] at hn, fun _ _ => rfl⟩
  obtain ⟨rest, hrest⟩ := hp
  have hallowed := hsound.allows_movesAll steps
  rw [← hrest, allowsAll_append] at hallowed
  simpa [past] using (hall.afterAll hsound hallowed.1).1 n m hm

/-- At every point of a run, within programs and after them, the findings of a monitor are those in the
frames that reached it since its last session was begun, in order: the frames of all events while it was
in a session, and those that it was told to check. -/
theorem findings_eq_sightings (files : FileStore) (steps : List Step) :
    (∀ w ∈ Report.watchesAll (performAll (start files) steps),
      ∃ moves, moves <+: movesAll (start files) steps ∧ w = (start files).afterAll moves) ∧
    ∀ moves, moves <+: movesAll (start files) steps →
      ∀ n m, ((start files).afterAll moves).monitors.item? n = some m →
        m.findings = (Note.sightings (past files moves n)).flatMap (Sighting.findings m.config) :=
  ⟨watches_performAll (start files) steps,
    fun _ hp _ _ hm => (holds_past files steps hp hm).findings⟩

end Watch

/-! ## A run -/

namespace Sample

/-- Two files with the same text, one of them in the directory of the program. -/
def files : FileStore :=
  (FileStore.empty.write "/app/a.py" "x: int\n".toUTF8).write "/lib/a.py" "x: int\n".toUTF8

/-- A change of the program. -/
def edit : Action := .write "/app/a.py" "x: str\n".toUTF8

/-- The files after the program was changed. -/
def edited : FileStore := files.write "/app/a.py" "x: str\n".toUTF8

def config : Config := ⟨"/app/"⟩

def frameIn (file : String) : Frame := ⟨file, 1, .ofList [("x", .int 1)], .empty⟩

def frame : Frame := frameIn "/app/a.py"

def lineIn (file : String) : Event := ⟨.line, frameIn file⟩

/-- A program that is changed while it runs and fails in the end, and a session that is begun after it. A
line is reached before the change and after it, then lines of a file that is not there and of one that is
not to be watched. -/
def restarts : List Step :=
  [.act (.create "m" config),
    .run "m" [.act (.emit (lineIn "/app/a.py")), .act edit, .act (.emit (lineIn "/app/a.py")),
      .act (.emit (lineIn "/app/b.py")), .act (.emit (lineIn "/lib/a.py"))] true,
    .act (.start "m"), .act (.emit (lineIn "/app/a.py"))]

/-- The moves up to the program. -/
def opening : List Move := [.act (.create "m" config), .enter 0]

/-- The watch in which the program is begun. -/
def opened : Watch := (Watch.start files).afterAll opening

/-- The moves of the program. -/
def program : List Move :=
  Watch.emits [lineIn "/app/a.py"] ++
    .act edit :: Watch.emits [lineIn "/app/a.py", lineIn "/app/b.py", lineIn "/lib/a.py"]

/-- The moves after the program. -/
def reopening : List Move :=
  .leave ⟨0, 1⟩ :: .act (.start "m") :: Watch.emits [lineIn "/app/a.py"]

theorem movesAll_restarts :
    Watch.movesAll (Watch.start files) restarts = opening ++ (program ++ reopening) := rfl

theorem watches_files : config.watches files frame = true := by decide +kernel

theorem watches_edited : config.watches edited frame = true := by decide +kernel

theorem watches_missing : config.watches edited (frameIn "/app/b.py") = false := by decide +kernel

theorem watches_outside : config.watches edited (frameIn "/lib/a.py") = false := by decide +kernel

/-- What is found on the line of the declaration, if the file has a table. -/
theorem declaredFindings_ofFile {files : FileStore} {found : List Bool}
    (h : (TypeTable.ofFile files.read "/app/a.py").toOption.map
      (fun table => (frame.declaredFindings table).map Finding.isConformant) = some found) :
    ∃ table, TypeTable.ofFile files.read "/app/a.py" = .ok table ∧
      (frame.declaredFindings table).map Finding.isConformant = found := by
  cases ht : TypeTable.ofFile files.read "/app/a.py" with
  | error e =>
    rw [ht] at h
    exact absurd h nofun
  | ok table =>
    rw [ht] at h
    exact ⟨table, rfl, Option.some.inj h⟩

/-- The value is of the type that is declared in the file. -/
theorem conformant : ∃ table, TypeTable.ofFile files.read "/app/a.py" = .ok table ∧
    (frame.declaredFindings table).map Finding.isConformant = [true] :=
  declaredFindings_ofFile (by decide +kernel)

/-- The value is not of the type that is declared after the change. -/
theorem nonconformant : ∃ table, TypeTable.ofFile edited.read "/app/a.py" = .ok table ∧
    (frame.declaredFindings table).map Finding.isConformant = [false] :=
  declaredFindings_ofFile (by decide +kernel)

open Watch

/-- What neither events nor changes of the files change, the program does not change. -/
theorem afterAll_program_same {β : Type} (f : Watch → β) (hemit : ∀ w e, f (w.emit e) = f w)
    (hfiles : ∀ w files, f { w with files := files } = f w) (w : Watch) : f (w.afterAll program) = f w := by
  rw [program, afterAll_append, afterAll_cons, afterAll_emits_same f hemit]
  exact (hfiles _ _).trans (afterAll_emits_same f hemit w _)

/-- The monitor is shown all frames, while the files are as they are then. -/
theorem notesAll_program {w : Watch} (ht : w.isTracing 0 = true) (hfiles : w.files = files) :
    w.notesAll 0 program = [.shown files frame, .shown edited frame, .shown edited (frameIn "/app/b.py"),
      .shown edited (frameIn "/lib/a.py")] := by
  have hafter : (w.afterAll (emits [lineIn "/app/a.py"])).files = files :=
    (afterAll_emits_same Watch.files files_emit w _).trans hfiles
  have htracing : (w.afterAll (emits [lineIn "/app/a.py"])).isTracing 0 = true :=
    (afterAll_emits_same (fun w => w.isTracing 0) (fun w e => by simp [isTracing, sessionOf_emit]) w _).trans ht
  rw [program, notesAll_append, notesAll_emits ht, hfiles, notesAll]
  generalize w.afterAll (emits [lineIn "/app/a.py"]) = v at hafter htracing
  have hedited : (v.after (.act edit)).files = edited :=
    congrArg (fun files => files.write "/app/a.py" "x: str\n".toUTF8) hafter
  have hstill : (v.after (.act edit)).isTracing 0 = true := htracing
  rw [notesAll_emits hstill, hedited]
  rfl

/-- The session of the program goes on as long as the program. -/
theorem sessionOf_program : (opened.afterAll program).sessionOf 0 = some 1 :=
  afterAll_program_same (fun w => w.sessionOf 0) (fun w e => sessionOf_emit w e 0) (fun _ _ => rfl) opened

theorem number?_program : (opened.afterAll program).monitors.number? "m" = some 0 :=
  afterAll_program_same (fun w => w.monitors.number? "m") (fun w e => number?_emit w e "m")
    (fun _ _ => rfl) opened

theorem files_program : (opened.afterAll program).files = edited := by
  have hseen : (opened.afterAll (emits [lineIn "/app/a.py"])).files = files :=
    afterAll_emits_same Watch.files files_emit opened _
  rw [program, afterAll_append, afterAll_cons, afterAll_emits_same Watch.files files_emit]
  exact congrArg (fun files => files.write "/app/a.py" "x: str\n".toUTF8) hseen

/-- The session is ended with the program, and the line is reached in the one that is begun after it. -/
theorem notesAll_restart {w : Watch} (h : w.Sound) (hs : w.sessionOf 0 = some 1)
    (hn : w.monitors.number? "m" = some 0) :
    w.notesAll 0 reopening = [.ended, .begun, .shown w.files frame] := by
  have hleave : w.after (.leave ⟨0, 1⟩) = w.leave 0 1 := if_pos hs
  have hidle : (w.leave 0 1).sessionOf 0 = none := by rw [sessionOf_leave, if_pos rfl]
  have hstart : (w.leave 0 1).after (.act (.start "m")) = (w.leave 0 1).enter 0 := act_start hn hidle
  have hthere : 0 < (w.leave 0 1).monitors.items.length := by
    simpa [leave, Catalogue.modify] using h.named "m" 0 hn
  have htracing : ((w.leave 0 1).enter 0).isTracing 0 = true := by
    simp [isTracing, sessionOf_enter _ 0 0 hthere]
  have hended : w.notes 0 (.leave ⟨0, 1⟩) = [.ended] := by simp [notes, endedWith, isLive, hs]
  have hbegun : (w.leave 0 1).notes 0 (.act (.start "m")) = [.begun] := by
    simp [notes, begunBy, isTracing, hidle, show (w.leave 0 1).monitors.number? "m" = some 0 from hn]
  rw [reopening, notesAll, notesAll, hended, hleave, hbegun, hstart, notesAll_emits htracing]
  rfl

theorem allowsAll_restarts : (Watch.start files).AllowsAll opening ∧ opened.AllowsAll program ∧
    (opened.afterAll program).AllowsAll reopening := by
  have hallowed := (Sound.start files).allows_movesAll restarts
  rwa [movesAll_restarts, allowsAll_append, allowsAll_append, ← opened] at hallowed

theorem sound_opened : opened.Sound := (Sound.start files).afterAll allowsAll_restarts.1

theorem past_program : past files (opening ++ program) 0 =
    [.shown edited (frameIn "/lib/a.py"), .shown edited (frameIn "/app/b.py"), .shown edited frame,
      .shown files frame, .begun] := by
  have hopening : (Watch.start files).notesAll 0 opening = [.begun] := rfl
  rw [past, notesAll_append, ← opened, hopening, notesAll_program rfl rfl]
  rfl

theorem past_restarts : past files (movesAll (Watch.start files) restarts) 0 =
    [.shown edited frame, .begun, .ended] ++ past files (opening ++ program) 0 := by
  have hsound : (opened.afterAll program).Sound := sound_opened.afterAll allowsAll_restarts.2.1
  rw [past, movesAll_restarts, ← List.append_assoc, notesAll_append, List.reverse_append, ← past,
    afterAll_append, ← opened, notesAll_restart hsound sessionOf_program number?_program, files_program]
  rfl

end Sample

/-- What a monitor has found is what is seen in the frames that it was shown in its session: while the
program runs, by the table of the file as it was first read; after the new session was begun, by that of
the file as it is then. -/
theorem Watch.findings_of_sample :
    Sample.opening ++ Sample.program <+: movesAll (start Sample.files) Sample.restarts ∧
      ∃ m₁ m₂, ((start Sample.files).afterAll (Sample.opening ++ Sample.program)).monitors.item? 0 = some m₁ ∧
        ((start Sample.files).afterAll (movesAll (start Sample.files) Sample.restarts)).monitors.item? 0 =
          some m₂ ∧
        m₁.findings = (Note.sightings (past Sample.files
          (Sample.opening ++ Sample.program) 0)).flatMap (Sighting.findings m₁.config) ∧
        m₂.findings = (Note.sightings (past Sample.files
          (movesAll (start Sample.files) Sample.restarts) 0)).flatMap (Sighting.findings m₂.config) ∧
        m₁.findings.map Finding.isConformant = [true, true] ∧
        m₂.findings.map Finding.isConformant = [false] := by
  have hp : Sample.opening ++ Sample.program <+: movesAll (start Sample.files) Sample.restarts := by
    rw [Sample.movesAll_restarts, ← List.append_assoc]
    exact List.prefix_append _ _
  obtain ⟨-, hprogram, hreopening⟩ := Sample.allowsAll_restarts
  obtain ⟨m₁, hm₁, hc₁⟩ := exists_item?_afterAll Sample.sound_opened hprogram
    (show Sample.opened.monitors.item? 0 = some ((Monitor.ofConfig Sample.config).begun 1) from rfl)
  obtain ⟨m₂, hm₂, hc₂⟩ := exists_item?_afterAll (Sample.sound_opened.afterAll hprogram) hreopening hm₁
  have hconfig : m₁.config = Sample.config := hc₁
  rw [Sample.opened, ← afterAll_append] at hm₁
  rw [Sample.opened, ← afterAll_append, ← afterAll_append, ← Sample.movesAll_restarts] at hm₂
  have hfindings := (findings_eq_sightings Sample.files Sample.restarts).2
  have h₁ := hfindings _ hp 0 m₁ hm₁
  have h₂ := hfindings _ List.prefix_rfl 0 m₂ hm₂
  have hfile : Sample.frame.file = "/app/a.py" := rfl
  refine ⟨hp, m₁, m₂, hm₁, hm₂, h₁, h₂, ?_, ?_⟩
  · obtain ⟨table, htable, hconformant⟩ := Sample.conformant
    rw [h₁, hconfig, Sample.past_program]
    simp [Note.sightings, Sighting.findings, Sighting.table, Note.firstRead, Sample.watches_files,
      Sample.watches_edited, Sample.watches_missing, Sample.watches_outside, hfile, htable, hconformant]
  · obtain ⟨table, htable, hnonconformant⟩ := Sample.nonconformant
    rw [h₂, hc₂, hconfig, Sample.past_restarts]
    simp [Note.sightings, Sighting.findings, Sighting.table, Note.firstRead, Sample.watches_edited, hfile,
      htable, hnonconformant]

end TypeWatch
