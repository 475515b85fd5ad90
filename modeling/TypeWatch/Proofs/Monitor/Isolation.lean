import TypeWatch.Proofs.Monitor.Recording

/-! # Isolation of sessions

What a monitor reports of a session is told by the session and by the tables that the monitor still
remembers when the session is begun (`reports_eq`). A table outlives the beginning of a session, and not
its end: a frame that is checked between two sessions tells how its file is read in the next one. -/
namespace TypeWatch
set_option autoImplicit false

/-! ## Monitors that are alike -/

/-- Two monitors that report the same, and go on to do so as long as the same happens to them. Their
sessions may have different numbers. -/
structure Monitor.Alike (m₁ m₂ : Monitor) : Prop where
  config : m₁.config = m₂.config
  tracing : m₁.isTracing = m₂.isTracing
  findings : m₁.findings = m₂.findings
  errors : m₁.errors = m₂.errors
  tables : ∀ file, m₁.tables.lookup file = m₂.tables.lookup file

namespace Monitor

/-- A session that is begun forgets all but the tables. -/
theorem begun_alike {m₁ m₂ : Monitor} (config : m₁.config = m₂.config)
    (tables : ∀ file, m₁.tables.lookup file = m₂.tables.lookup file) (id₁ id₂ : SubscriptionId) :
    (m₁.begun id₁).Alike (m₂.begun id₂) :=
  ⟨config, rfl, rfl, rfl, tables⟩

namespace Alike

variable {m₁ m₂ : Monitor}

theorem ended (h : m₁.Alike m₂) : m₁.ended.Alike m₂.ended :=
  ⟨h.config, rfl, h.findings, h.errors, fun _ => rfl⟩

theorem remember (h : m₁.Alike m₂) (file : String) (r : Except SourceError TypeTable) :
    (m₁.remember file r).Alike (m₂.remember file r) := by
  have htables (t : Option TypeTable) (other : String) :
      ((file, t) :: m₁.tables).lookup other = ((file, t) :: m₂.tables).lookup other := by
    rw [lookup_cons_if, lookup_cons_if, h.tables other]
  cases r with
  | ok table => exact ⟨h.config, h.tracing, h.findings, h.errors, htables _⟩
  | error e => exact ⟨h.config, h.tracing, h.findings, congrArg (· ++ [e]) h.errors, htables _⟩

theorem learn (h : m₁.Alike m₂) (read : Reader) (file : String) :
    (m₁.learn read file).Alike (m₂.learn read file) := by
  rw [Monitor.learn, Monitor.learn, h.tables file]
  cases m₂.tables.lookup file with
  | some _ => exact h
  | none => exact h.remember file _

theorem check (h : m₁.Alike m₂) (f : Frame) : (m₁.check f).Alike (m₂.check f) := by
  rw [Monitor.check, Monitor.check, table?, table?, h.tables f.file]
  cases (m₂.tables.lookup f.file).join with
  | some table => exact ⟨h.config, h.tracing, congrArg (· ++ _) h.findings, h.errors, h.tables⟩
  | none => exact h

theorem observe (h : m₁.Alike m₂) (files : FileStore) (f : Frame) :
    (m₁.observe files f).Alike (m₂.observe files f) := by
  rw [Monitor.observe, Monitor.observe, h.config]
  split
  · exact (h.learn files.read f.file).check f
  · exact h

theorem takeAll (h : m₁.Alike m₂) (id₁ id₂ : SubscriptionId) (notes : List Note) :
    (m₁.takeAll id₁ notes).Alike (m₂.takeAll id₂ notes) := by
  induction notes generalizing m₁ m₂ with
  | nil => exact h
  | cons note notes ih =>
    cases note with
    | begun => exact ih (begun_alike h.config h.tables id₁ id₂)
    | ended => exact ih h.ended
    | shown files frame => exact ih (h.observe files frame)

end Alike

/-- A session that goes on through some notes was there before, and none was begun or ended. -/
theorem session_takeAll (m : Monitor) {id s : SubscriptionId} (hs : s ≠ id) (notes : List Note) :
    (m.takeAll id notes).session = some s ↔ m.session = some s ∧ .begun ∉ notes ∧ .ended ∉ notes := by
  induction notes generalizing m with
  | nil => simp [takeAll]
  | cons note notes ih =>
    rw [takeAll, List.foldl_cons, ← takeAll, ih]
    cases note with
    | begun => simp [take, Monitor.begun, Ne.symm hs]
    | ended => simp [take, Monitor.ended]
    | shown files frame => simp [take]

end Monitor

/-! ## Steps that keep to a monitor -/

/-- An action that makes no other monitor under the name, and no guard of another monitor. -/
def Action.KeepsTo (name : String) : Action → Prop
  | .create other _ => other ≠ name
  | .hold _ other => other = name
  | _ => True

/-- What an action makes of the files. -/
def Action.change (files : FileStore) : Action → FileStore
  | .write path content => files.write path content
  | .delete path => (files.delete? path).getD files
  | .makeDirectory path => (files.makeDirectory? path).getD files
  | _ => files

mutual

/-- A step whose programs are run by the monitor with the name. -/
def Step.KeepsTo (name : String) : Step → Prop
  | .act action => action.KeepsTo name
  | .run other program _ => other = name ∧ keepsToAll name program

def Step.keepsToAll (name : String) : List Step → Prop
  | [] => True
  | step :: steps => step.KeepsTo name ∧ keepsToAll name steps

end

namespace Watch

/-! ## Guards -/

/-- Whether giving up a guard ends the session of a monitor. -/
def ends (w : Watch) (n : Nat) (g : Option Guard) : Bool := g.any (w.isLive n)

theorem endedWith_eq (w : Watch) (n : Nat) (g : Option Guard) :
    w.endedWith n g = if w.ends n g then [.ended] else [] := by
  cases g <;> rfl

theorem ends_eq_false {w : Watch} {n : Nat} (hs : w.sessionOf n = none) (g : Option Guard) :
    w.ends n g = false := by
  cases g with
  | none => rfl
  | some g => simp [ends, isLive, hs]

theorem isLive_iff (w : Watch) (n : Nat) (g : Guard) :
    w.isLive n g = true ↔ g.monitor = n ∧ w.sessionOf n = some g.session := by
  simp [isLive]

/-- A guard that was made before ends the session after a move if it did so before, and the session has
neither been begun nor ended. -/
theorem ends_after {w : Watch} (h : w.Sound) {move : Move} (hm : w.Allows move) {n : Nat}
    (hn : n < w.monitors.items.length) {g : Option Guard} (hg : ∀ x ∈ g, x.session < w.registry.next) :
    (w.after move).ends n g = true ↔
      w.ends n g = true ∧ .begun ∉ w.notes n move ∧ .ended ∉ w.notes n move := by
  obtain ⟨m, hsome⟩ := Option.isSome_iff_exists.mp ((w.monitors.item?_isSome n).mpr hn)
  cases g with
  | none => simp [ends]
  | some g =>
    have hafter := item?_after h hm (n := n) (fun _ _ _ => Nat.ne_of_lt hn)
    have hne : g.session ≠ w.registry.next := Nat.ne_of_lt (hg g rfl)
    simp only [ends, Option.any_some, isLive_iff, sessionOf, hafter, hsome, Option.map_some,
      Option.bind_some, m.session_takeAll hne, and_assoc]

/-! ## What actions leave alone -/

section Same

variable {β : Type} (f : Watch → β)

/-- What the end of a session does not change, giving up a guard does not change. -/
theorem release_same (hleave : ∀ w n id, f (leave w n id) = f w) (w : Watch) (g : Guard) :
    f (w.release g) = f w := by
  unfold release
  split
  · exact hleave w _ _
  · rfl

theorem hold_same (hleave : ∀ w n id, f (leave w n id) = f w)
    (hguards : ∀ w gs, f { w with guards := gs } = f w) (w : Watch) (name : String) (g : Guard) :
    f (w.hold name g) = f w := by
  unfold hold
  split
  · rw [release_same f hleave, hguards]
  · exact hguards w _

theorem drop_same (hleave : ∀ w n id, f (leave w n id) = f w)
    (hguards : ∀ w gs, f { w with guards := gs } = f w) (w : Watch) (name : String) :
    f (w.drop name) = f w := by
  unfold drop
  split
  · rw [release_same f hleave, hguards]
  · rfl

end Same

theorem lookup_hold (w : Watch) (name : String) (g : Guard) (other : String) :
    (w.hold name g).guards.lookup other = if other = name then some g else w.guards.lookup other := by
  have hheld : (w.hold name g).guards = (name, g) :: w.guards.filter fun x => x.1 != name := by
    unfold hold
    split
    · exact release_same Watch.guards (fun _ _ _ => rfl) _ _
    · rfl
  rw [hheld, lookup_cons_if, lookup_filter_ne]
  by_cases h : other = name <;> simp [h]

theorem lookup_drop (w : Watch) (name other : String) :
    (w.drop name).guards.lookup other = if other = name then none else w.guards.lookup other := by
  unfold drop
  cases h : w.guards.lookup name with
  | some g => rw [release_same Watch.guards (fun _ _ _ => rfl), lookup_filter_ne]
  | none =>
    by_cases ho : other = name
    · rw [if_pos ho, ho, h]
    · rw [if_neg ho]

/-- The files, and the names of the monitors. -/
def outside (w : Watch) : FileStore × List (String × Nat) := (w.files, w.monitors.names)

/-- Only a new monitor and a change of the files are seen outside. -/
theorem outside_act (w : Watch) (action : Action) :
    (w.act action).2.outside =
      match action with
      | .create name _ => (w.files, (w.monitors.add name (Monitor.ofConfig .standard)).names)
      | .write path content => (w.files.write path content, w.monitors.names)
      | .delete path => ((w.files.delete? path).getD w.files, w.monitors.names)
      | .makeDirectory path => ((w.files.makeDirectory? path).getD w.files, w.monitors.names)
      | _ => w.outside := by
  have hleave (w : Watch) (n : Nat) (id : SubscriptionId) : (w.leave n id).outside = w.outside := rfl
  have hguards (w : Watch) (gs : List (String × Guard)) : { w with guards := gs }.outside = w.outside := rfl
  have hacts := w.acts_act action
  generalize (w.act action).2 = v at hacts ⊢
  cases hacts with
  | hold _ _ => exact hold_same outside hleave hguards _ _ _
  | drop guard => exact drop_same outside hleave hguards w guard
  | emit e => exact foldl_deliver_same outside e (fun w s => by cases s <;> rfl) _ w
  | delete hfiles => simp [outside, hfiles]
  | makeDirectory hfiles => simp [outside, hfiles]
  | nothing hi =>
    cases action with
    | create name c => exact hi.elim
    | write path content => exact hi.elim
    | delete path => simp [outside, show w.files.delete? path = none from hi]
    | makeDirectory path => simp [outside, show w.files.makeDirectory? path = none from hi]
    | _ => rfl
  | _ => rfl

/-- The files after an action depend on nothing but the files before it. -/
theorem files_act (w : Watch) (action : Action) : (w.act action).2.files = action.change w.files := by
  have hout := congrArg Prod.fst (w.outside_act action)
  cases action <;> exact hout

theorem number?_act (w : Watch) {action : Action} {name : String} (hkeep : action.KeepsTo name) :
    (w.act action).2.monitors.number? name = w.monitors.number? name := by
  have hout := congrArg Prod.snd (w.outside_act action)
  cases action with
  | create other c =>
    simp only [act, Catalogue.number?_add]
    rw [if_neg (Ne.symm hkeep)]
  | _ => exact congrArg (List.lookup name) hout

/-- The numbers of sessions are never given twice. -/
theorem next_le_act (w : Watch) (action : Action) : w.registry.next ≤ (w.act action).2.registry.next := by
  have hacts := w.acts_act action
  generalize (w.act action).2 = v at hacts ⊢
  cases hacts with
  | enter _ _ => exact Nat.le_succ _
  | hold _ _ =>
    rw [hold_same (fun w => w.registry.next) (fun _ _ _ => rfl) (fun _ _ => rfl)]
    exact Nat.le_succ _
  | drop guard =>
    exact Nat.le_of_eq (drop_same (fun w => w.registry.next) (fun _ _ _ => rfl) (fun _ _ => rfl) w _).symm
  | emit e =>
    exact Nat.le_of_eq (foldl_deliver_same (fun w => w.registry.next) e
      (fun w s => by cases s <;> rfl) _ w).symm
  | record name => exact Nat.le_succ _
  | _ => exact Nat.le_refl _

theorem next_le_after (w : Watch) (move : Move) : w.registry.next ≤ (w.after move).registry.next := by
  cases move with
  | act action => exact w.next_le_act action
  | enter n => exact Nat.le_succ _
  | leave g => exact Nat.le_of_eq (release_same (fun w => w.registry.next) (fun _ _ _ => rfl) w g).symm

/-- Guards are held and given up by name, and no other action changes which are held. -/
theorem lookup_act (w : Watch) (action : Action) (other : String) :
    (w.act action).2.guards.lookup other =
      match action with
      | .hold guard name =>
        match w.monitors.number? name with
        | some n =>
          if other = guard ∧ w.sessionOf n = none then some ⟨n, w.registry.next⟩
          else w.guards.lookup other
        | none => w.guards.lookup other
      | .drop guard => if other = guard then none else w.guards.lookup other
      | _ => w.guards.lookup other := by
  have hacts := w.acts_act action
  generalize (w.act action).2 = v at hacts ⊢
  cases hacts with
  | hold hn hs =>
    rw [lookup_hold]
    simp [hn, hs, enter]
  | drop guard => exact lookup_drop w guard other
  | emit e =>
    exact congrArg (List.lookup other)
      (foldl_deliver_same Watch.guards e (fun w s => by cases s <;> rfl) _ w)
  | nothing hi =>
    cases action with
    | hold guard name =>
      cases hn : w.monitors.number? name with
      | none => simp [hn]
      | some n => simp [hn, hi n hn]
    | drop guard => exact hi.elim
    | _ => rfl
  | _ => rfl

theorem sessionOf_hold {w : Watch} (h : w.Sound) {n : Nat} (hn : n < w.monitors.items.length)
    (hs : w.sessionOf n = none) (guard : String) :
    ((w.enter n).hold guard ⟨n, w.registry.next⟩).sessionOf n = some w.registry.next := by
  obtain ⟨m, hm⟩ := Option.isSome_iff_exists.mp ((w.monitors.item?_isSome n).mpr hn)
  rw [sessionOf, item?_hold h hn hs, hm]
  simp [begunBy, isTracing, hs, endedWith_eq, ends_eq_false hs, Monitor.takeAll, Monitor.take,
    Monitor.begun]

/-! ## Watches that agree -/

/-- Two guards that were made before, and end the sessions of two monitors either both or not at all. -/
structure EndAlike (n₁ n₂ : Nat) (w₁ w₂ : Watch) (g₁ g₂ : Option Guard) : Prop where
  old₁ : ∀ g ∈ g₁, g.session < w₁.registry.next
  old₂ : ∀ g ∈ g₂, g.session < w₂.registry.next
  ends : w₁.ends n₁ g₁ = w₂.ends n₂ g₂

/-- Two watches with the same files, in which the monitors with a name are alike. -/
structure Agree (name : String) (n₁ n₂ : Nat) (w₁ w₂ : Watch) : Prop where
  sound₁ : w₁.Sound
  sound₂ : w₂.Sound
  files : w₁.files = w₂.files
  number₁ : w₁.monitors.number? name = some n₁
  number₂ : w₂.monitors.number? name = some n₂
  monitors : ∃ m₁ m₂, w₁.monitors.item? n₁ = some m₁ ∧ w₂.monitors.item? n₂ = some m₂ ∧ m₁.Alike m₂
  guards : ∀ guard, EndAlike n₁ n₂ w₁ w₂ (w₁.guards.lookup guard) (w₂.guards.lookup guard)

/-- Moves that are the same to the monitors. -/
inductive SameMove (name : String) (n₁ n₂ : Nat) (w₁ w₂ : Watch) : Move → Move → Prop
  | act (action : Action) : action.KeepsTo name → SameMove name n₁ n₂ w₁ w₂ (.act action) (.act action)
  | enter : SameMove name n₁ n₂ w₁ w₂ (.enter n₁) (.enter n₂)
  | leave (g₁ g₂ : Guard) : EndAlike n₁ n₂ w₁ w₂ (some g₁) (some g₂) →
      SameMove name n₁ n₂ w₁ w₂ (.leave g₁) (.leave g₂)

namespace Agree

variable {name : String} {n₁ n₂ : Nat} {w₁ w₂ : Watch}

theorem isTracing_eq (h : Agree name n₁ n₂ w₁ w₂) : w₁.isTracing n₁ = w₂.isTracing n₂ := by
  obtain ⟨m₁, m₂, h₁, h₂, halike⟩ := h.monitors
  simp only [isTracing, sessionOf, h₁, h₂, Option.bind_some]
  exact halike.tracing

/-- One of the monitors is idle if and only if the other is. -/
theorem idle_iff (h : Agree name n₁ n₂ w₁ w₂) : w₁.sessionOf n₁ = none ↔ w₂.sessionOf n₂ = none := by
  rw [← Option.not_isSome_iff_eq_none, ← Option.not_isSome_iff_eq_none]
  exact not_congr (Bool.eq_iff_iff.mp h.isTracing_eq)

/-- The monitor that a name stands for is the one, if and only if the name is its name. -/
theorem number?_iff (h : Agree name n₁ n₂ w₁ w₂) (other : String) :
    w₁.monitors.number? other = some n₁ ↔ w₂.monitors.number? other = some n₂ := by
  constructor
  · intro ho
    rw [h.sound₁.distinct other name n₁ ho h.number₁]
    exact h.number₂
  · intro ho
    rw [h.sound₂.distinct other name n₂ ho h.number₂]
    exact h.number₁

theorem notes_eq (h : Agree name n₁ n₂ w₁ w₂) {move₁ move₂ : Move}
    (hm : SameMove name n₁ n₂ w₁ w₂ move₁ move₂) : w₁.notes n₁ move₁ = w₂.notes n₂ move₂ := by
  have hbegun : w₁.begunBy n₁ n₁ = w₂.begunBy n₂ n₂ := by
    simp only [begunBy, h.isTracing_eq, true_and]
  cases hm with
  | enter => exact hbegun
  | leave g₁ g₂ hg => simp only [notes, endedWith_eq, hg.ends]
  | act action hkeep =>
    cases action with
    | start other => simp only [notes, h.number?_iff other, hbegun]
    | stop other => simp only [notes, h.number?_iff other, h.isTracing_eq]
    | hold guard other =>
      obtain rfl : other = name := hkeep
      simp only [notes, h.number₁, h.number₂, h.isTracing_eq, hbegun, endedWith_eq, (h.guards guard).ends]
    | drop guard => simp only [notes, endedWith_eq, (h.guards guard).ends]
    | emit event => simp only [notes, h.isTracing_eq, h.files]
    | inspect other frame => simp only [notes, h.number?_iff other, h.files]
    | _ => rfl

theorem lt₁ (h : Agree name n₁ n₂ w₁ w₂) : n₁ < w₁.monitors.items.length := h.sound₁.named name n₁ h.number₁

theorem lt₂ (h : Agree name n₁ n₂ w₁ w₂) : n₂ < w₂.monitors.items.length := h.sound₂.named name n₂ h.number₂

/-- Guards that end the sessions alike do so after the same move. -/
theorem endAlike_after (h : Agree name n₁ n₂ w₁ w₂) {move₁ move₂ : Move} (hm₁ : w₁.Allows move₁)
    (hm₂ : w₂.Allows move₂) (hm : SameMove name n₁ n₂ w₁ w₂ move₁ move₂) {g₁ g₂ : Option Guard}
    (hg : EndAlike n₁ n₂ w₁ w₂ g₁ g₂) :
    EndAlike n₁ n₂ (w₁.after move₁) (w₂.after move₂) g₁ g₂ := by
  refine ⟨?_, ?_, ?_⟩
  · intro g hin
    exact Nat.lt_of_lt_of_le (hg.old₁ g hin) (w₁.next_le_after move₁)
  · intro g hin
    exact Nat.lt_of_lt_of_le (hg.old₂ g hin) (w₂.next_le_after move₂)
  · rw [Bool.eq_iff_iff, ends_after h.sound₁ hm₁ h.lt₁ hg.old₁, ends_after h.sound₂ hm₂ h.lt₂ hg.old₂,
      hg.ends, h.notes_eq hm]

/-- The guards that are made with two sessions end them. -/
theorem endAlike_new {v₁ v₂ : Watch} (h₁ : w₁.registry.next < v₁.registry.next)
    (h₂ : w₂.registry.next < v₂.registry.next) (hs₁ : v₁.sessionOf n₁ = some w₁.registry.next)
    (hs₂ : v₂.sessionOf n₂ = some w₂.registry.next) :
    EndAlike n₁ n₂ v₁ v₂ (some ⟨n₁, w₁.registry.next⟩) (some ⟨n₂, w₂.registry.next⟩) := by
  refine ⟨?_, ?_, ?_⟩
  · intro g hg
    obtain rfl := Option.some.inj hg
    exact h₁
  · intro g hg
    obtain rfl := Option.some.inj hg
    exact h₂
  · simp [Watch.ends, isLive, hs₁, hs₂]

/-- The guards that hold sessions of idle monitors end them. -/
theorem endAlike_hold (h : Agree name n₁ n₂ w₁ w₂) (hs₁ : w₁.sessionOf n₁ = none) (hs₂ : w₂.sessionOf n₂ = none)
    (guard : String) :
    EndAlike n₁ n₂ (w₁.act (.hold guard name)).2 (w₂.act (.hold guard name)).2 (some ⟨n₁, w₁.registry.next⟩)
      (some ⟨n₂, w₂.registry.next⟩) := by
  have hnext {w : Watch} {n : Nat} (hn : w.monitors.number? name = some n) (hs : w.sessionOf n = none) :
      w.registry.next < (w.act (.hold guard name)).2.registry.next := by
    rw [act_hold hn hs, hold_same (fun w => w.registry.next) (fun _ _ _ => rfl) (fun _ _ => rfl)]
    exact Nat.lt_succ_self _
  have hsession {w : Watch} {n : Nat} (hw : w.Sound) (hn : w.monitors.number? name = some n)
      (hs : w.sessionOf n = none) : (w.act (.hold guard name)).2.sessionOf n = some w.registry.next := by
    rw [act_hold hn hs]
    exact sessionOf_hold hw (hw.named name n hn) hs guard
  exact endAlike_new (hnext h.number₁ hs₁) (hnext h.number₂ hs₂) (hsession h.sound₁ h.number₁ hs₁)
    (hsession h.sound₂ h.number₂ hs₂)

/-- The guards that are held after the same move end the sessions alike. -/
theorem guards_after (h : Agree name n₁ n₂ w₁ w₂) {move₁ move₂ : Move} (hm₁ : w₁.Allows move₁)
    (hm₂ : w₂.Allows move₂) (hm : SameMove name n₁ n₂ w₁ w₂ move₁ move₂) (guard : String) :
    EndAlike n₁ n₂ (w₁.after move₁) (w₂.after move₂) ((w₁.after move₁).guards.lookup guard)
      ((w₂.after move₂).guards.lookup guard) := by
  have hsame := h.endAlike_after hm₁ hm₂ hm (h.guards guard)
  cases hm with
  | enter => exact hsame
  | leave g₁ g₂ hg =>
    have hguards (w : Watch) (g : Guard) : (w.release g).guards = w.guards :=
      release_same Watch.guards (fun _ _ _ => rfl) w g
    simpa only [after, hguards] using hsame
  | act action hkeep =>
    simp only [after, lookup_act] at hsame ⊢
    cases action with
    | drop other =>
      by_cases ho : guard = other
      · simp only [ho, if_true]
        exact ⟨by rintro _ ⟨⟩, by rintro _ ⟨⟩, rfl⟩
      · simpa only [if_neg ho] using hsame
    | hold other k =>
      obtain rfl : k = name := hkeep
      simp only [h.number₁, h.number₂]
      by_cases hs : w₁.sessionOf n₁ = none
      · have hs' : w₂.sessionOf n₂ = none := h.idle_iff.mp hs
        by_cases ho : guard = other
        · simp only [ho, hs, hs', and_self, if_true]
          exact h.endAlike_hold hs hs' other
        · simpa only [ho, false_and, if_false] using hsame
      · have hs' : w₂.sessionOf n₂ ≠ none := mt h.idle_iff.mpr hs
        simpa only [hs, hs', and_false, if_false] using hsame
    | _ => exact hsame

theorem outside_after (h : Agree name n₁ n₂ w₁ w₂) {move₁ move₂ : Move}
    (hm : SameMove name n₁ n₂ w₁ w₂ move₁ move₂) :
    (w₁.after move₁).files = (w₂.after move₂).files ∧
      (w₁.after move₁).monitors.number? name = some n₁ ∧
      (w₂.after move₂).monitors.number? name = some n₂ := by
  cases hm with
  | enter => exact ⟨h.files, h.number₁, h.number₂⟩
  | leave g₁ g₂ hg =>
    have hfiles (w : Watch) (g : Guard) : (w.release g).files = w.files :=
      release_same Watch.files (fun _ _ _ => rfl) w g
    have hnumber (w : Watch) (g : Guard) :
        (w.release g).monitors.number? name = w.monitors.number? name :=
      release_same (fun w => w.monitors.number? name) (fun _ _ _ => rfl) w g
    refine ⟨?_, ?_, ?_⟩
    · rw [after, after, hfiles, hfiles, h.files]
    · rw [after, hnumber, h.number₁]
    · rw [after, hnumber, h.number₂]
  | act action hkeep =>
    refine ⟨?_, ?_, ?_⟩
    · rw [after, after, files_act, files_act, h.files]
    · rw [after, number?_act w₁ hkeep, h.number₁]
    · rw [after, number?_act w₂ hkeep, h.number₂]

theorem after (h : Agree name n₁ n₂ w₁ w₂) {move₁ move₂ : Move} (hm₁ : w₁.Allows move₁)
    (hm₂ : w₂.Allows move₂) (hm : SameMove name n₁ n₂ w₁ w₂ move₁ move₂) :
    Agree name n₁ n₂ (w₁.after move₁) (w₂.after move₂) := by
  obtain ⟨hfiles, hnumber₁, hnumber₂⟩ := h.outside_after hm
  obtain ⟨m₁, m₂, hitem₁, hitem₂, halike⟩ := h.monitors
  have hafter₁ := item?_after h.sound₁ hm₁ (n := n₁) (fun _ _ _ => Nat.ne_of_lt h.lt₁)
  have hafter₂ := item?_after h.sound₂ hm₂ (n := n₂) (fun _ _ _ => Nat.ne_of_lt h.lt₂)
  rw [hitem₁, Option.map_some] at hafter₁
  rw [hitem₂, Option.map_some, ← h.notes_eq hm] at hafter₂
  exact ⟨h.sound₁.after hm₁, h.sound₂.after hm₂, hfiles, hnumber₁, hnumber₂,
    ⟨_, _, hafter₁, hafter₂, halike.takeAll _ _ _⟩, h.guards_after hm₁ hm₂ hm⟩

end Agree

/-! ## Steps -/

/-- Two watches agree, and guards that end the sessions alike in two earlier ones do so still. -/
structure AgreeAfter (name : String) (n₁ n₂ : Nat) (w₁ w₂ v₁ v₂ : Watch) : Prop where
  agree : Agree name n₁ n₂ v₁ v₂
  endAlike : ∀ g₁ g₂, EndAlike n₁ n₂ w₁ w₂ g₁ g₂ → EndAlike n₁ n₂ v₁ v₂ g₁ g₂

section Steps

variable {name : String} {n₁ n₂ : Nat} {w₁ w₂ : Watch}

theorem AgreeAfter.trans {v₁ v₂ u₁ u₂ : Watch} (h : AgreeAfter name n₁ n₂ w₁ w₂ v₁ v₂)
    (h' : AgreeAfter name n₁ n₂ v₁ v₂ u₁ u₂) : AgreeAfter name n₁ n₂ w₁ w₂ u₁ u₂ :=
  ⟨h'.agree, fun g₁ g₂ hg => h'.endAlike g₁ g₂ (h.endAlike g₁ g₂ hg)⟩

theorem Agree.agreeAfter (h : Agree name n₁ n₂ w₁ w₂) (move₁ move₂ : Move) (hm₁ : w₁.Allows move₁)
    (hm₂ : w₂.Allows move₂) (hm : SameMove name n₁ n₂ w₁ w₂ move₁ move₂) :
    AgreeAfter name n₁ n₂ w₁ w₂ (w₁.after move₁) (w₂.after move₂) :=
  ⟨h.after hm₁ hm₂ hm, fun _ _ hg => h.endAlike_after hm₁ hm₂ hm hg⟩

mutual

theorem Agree.perform {w₁ w₂ : Watch} (h : Agree name n₁ n₂ w₁ w₂) : ∀ step : Step, step.KeepsTo name →
    AgreeAfter name n₁ n₂ w₁ w₂ (perform w₁ step).after (perform w₂ step).after
  | .act action, hkeep => by
    rw [Step.KeepsTo] at hkeep
    exact h.agreeAfter (.act action) (.act action) trivial trivial (.act action hkeep)
  | .run other program fails, hkeep => by
    rw [Step.KeepsTo] at hkeep
    obtain ⟨hname, hprogram⟩ := hkeep
    simp only [Watch.perform, hname, h.number₁, h.number₂, openSession_eq]
    by_cases hs : w₁.sessionOf n₁ = none
    · have hs' : w₂.sessionOf n₂ = none := h.idle_iff.mp hs
      simp only [hs, hs', if_true]
      have henter := h.agreeAfter (.enter n₁) (.enter n₂) ⟨h.lt₁, hs⟩ ⟨h.lt₂, hs'⟩ .enter
      have hnew : EndAlike n₁ n₂ (w₁.enter n₁) (w₂.enter n₂) (some ⟨n₁, w₁.registry.next⟩)
          (some ⟨n₂, w₂.registry.next⟩) := by
        refine Agree.endAlike_new (Nat.lt_succ_self _) (Nat.lt_succ_self _) ?_ ?_
        · rw [sessionOf_enter w₁ n₁ n₁ h.lt₁, if_pos rfl]
        · rw [sessionOf_enter w₂ n₂ n₂ h.lt₂, if_pos rfl]
      have hinside := Agree.performAll henter.agree program hprogram
      have hleave := hinside.agree.agreeAfter (.leave _) (.leave _) trivial trivial
        (.leave _ _ (hinside.endAlike _ _ hnew))
      exact (henter.trans hinside).trans hleave
    · have hs' : w₂.sessionOf n₂ ≠ none := mt h.idle_iff.mpr hs
      simp only [hs, hs', if_false]
      exact ⟨h, fun _ _ hg => hg⟩

theorem Agree.performAll {w₁ w₂ : Watch} (h : Agree name n₁ n₂ w₁ w₂) : ∀ steps : List Step,
    Step.keepsToAll name steps → AgreeAfter name n₁ n₂ w₁ w₂ (Report.final w₁ (performAll w₁ steps))
      (Report.final w₂ (performAll w₂ steps))
  | [], _ => ⟨h, fun _ _ hg => hg⟩
  | step :: steps, hkeep => by
    rw [Step.keepsToAll] at hkeep
    have hstep := Agree.perform h step hkeep.1
    rw [final_performAll_cons, final_performAll_cons]
    exact hstep.trans (Agree.performAll hstep.agree steps hkeep.2)

end

end Steps

end Watch

/-! ## Errors of a session -/

/-- Why a file has no table, as it was when it was first read, if it was read. -/
def Note.firstFailure (c : Config) (file : String) (past : List Note) : Option SourceError :=
  (Note.firstRead c file past).bind fun files =>
    match TypeTable.ofFile files.read file with
    | .ok _ => none
    | .error e => some e

theorem TypeTable.ofFile_eq {read : Reader} {path source : String} (h : read path = .ok source) :
    TypeTable.ofFile read path = inFile path (TypeTable.ofText source) := by
  rw [TypeTable.ofFile, Module.source, h]
  rfl

theorem TypeTable.file_of_ofFile_error {read : Reader} {path : String} {e : SourceError}
    (h : TypeTable.ofFile read path = .error e) : e.file = path := by
  cases hr : read path with
  | error r =>
    rw [TypeTable.ofFile, Module.source, hr] at h
    obtain rfl := Except.error.inj h
    rfl
  | ok source =>
    rw [TypeTable.ofFile_eq hr] at h
    cases ht : TypeTable.ofText source with
    | ok table =>
      rw [ht] at h
      cases h
    | error s =>
      rw [ht] at h
      obtain rfl := Except.error.inj h
      rfl

namespace Sighting

theorem file_of_failure? {c : Config} {s : Sighting} {e : SourceError} (h : s.failure? c = some e) :
    e.file = s.frame.file := by
  unfold failure? at h
  split at h
  · cases ht : s.table c with
    | ok table => simp [ht] at h
    | error e' =>
      simp only [ht, Option.some.injEq] at h
      rw [← h]
      exact TypeTable.file_of_ofFile_error ht
  · exact absurd h nofun

/-- The error of a file that is read for a frame is the first one of the session. -/
theorem failure?_eq {c : Config} (files : FileStore) {f : Frame} {past during : List Note}
    (hsame : Note.firstRead c f.file past = Note.firstRead c f.file during)
    (hnone : Note.firstRead c f.file during = none) :
    failure? c ⟨files, f, past⟩ = Note.firstFailure c f.file (.shown files f :: during) := by
  rw [hnone] at hsame
  by_cases hw : c.watches files f = true
  · have hfirst : Note.firstRead c f.file (.shown files f :: during) = some files := by
      simp [Note.firstRead, hnone, hw]
    rw [failure?, Note.firstFailure, hfirst, table, hsame, hw]
    rfl
  · simp [failure?, hw, Note.firstFailure, Note.firstRead, hnone]

end Sighting

namespace Note

/-- While a session goes on, a file of which nothing was remembered is first read in the session, and it
has one error if it has no table then. -/
theorem errors_during (c : Config) (file : String) {during before : List Note}
    (hduring : ∀ note ∈ during, ∃ files frame, note = .shown files frame)
    (hbefore : firstRead c file before = none) :
    firstRead c file (during ++ .begun :: before) = firstRead c file during ∧
      ((sightings (during ++ .begun :: before)).filterMap (Sighting.failure? c)).filter
        (fun e => e.file == file) = (firstFailure c file during).toList := by
  induction during with
  | nil => exact ⟨hbefore, rfl⟩
  | cons note during ih =>
    obtain ⟨files, f, rfl⟩ := hduring note List.mem_cons_self
    obtain ⟨hread, herrors⟩ := ih fun n hn => hduring n (List.mem_cons_of_mem _ hn)
    refine ⟨?_, ?_⟩
    · rw [List.cons_append, firstRead, firstRead, hread]
    · simp only [List.cons_append, sightings, List.filterMap_append, List.filter_append, herrors]
      by_cases hfile : f.file = file
      · subst hfile
        cases hfirst : firstRead c f.file during with
        | some first =>
          have hno : Sighting.failure? c ⟨files, f, during ++ .begun :: before⟩ = none := by
            simp [Sighting.failure?, hread, hfirst]
          simp [hno, firstFailure, firstRead, hfirst]
        | none =>
          have hnew := Sighting.failure?_eq files hread hfirst
          have hnone : firstFailure c f.file during = none := by simp [firstFailure, hfirst]
          simp only [List.filterMap_cons, List.filterMap_nil, hnew, hnone, Option.toList_none,
            List.nil_append]
          cases he : firstFailure c f.file (.shown files f :: during) with
          | none => rfl
          | some e =>
            have hef : e.file = f.file := Sighting.file_of_failure? (hnew.trans he)
            simp [hef]
      · -- the error of another file, if there is one
        have hskip : firstFailure c file (.shown files f :: during) = firstFailure c file during := by
          have hne : (f.file == file) = false := beq_eq_false_iff_ne.mpr hfile
          simp only [firstFailure, firstRead, hne, Bool.and_false, Bool.false_eq_true, if_false]
          cases firstRead c file during <;> rfl
        rw [hskip]
        simp only [List.filterMap_cons, List.filterMap_nil]
        cases he : Sighting.failure? c ⟨files, f, during ++ .begun :: before⟩ with
        | none => simp
        | some e =>
          have hef : e.file = f.file := Sighting.file_of_failure? he
          simp [hef, hfile]

/-- What is remembered of a file: the table that it had when it was first read since the last session was
ended, or that it had none then. -/
def remembered (c : Config) (file : String) (past : List Note) : Option (Option TypeTable) :=
  (firstRead c file past).map fun files => (TypeTable.ofFile files.read file).toOption

end Note

namespace Watch

/-! ## Isolation -/

/-- A point of a run at which the monitor with a name is idle. -/
structure IdlePoint (name : String) where
  files : FileStore
  steps : List Step
  moves : List Move
  reached : moves <+: movesAll (Watch.start files) steps
  number : Nat
  monitor : Monitor
  named : ((Watch.start files).afterAll moves).monitors.number? name = some number
  there : ((Watch.start files).afterAll moves).monitors.item? number = some monitor
  idle : monitor.isTracing = false

namespace IdlePoint

variable {name : String}

def watch (p : IdlePoint name) : Watch := (Watch.start p.files).afterAll p.moves

/-- What is remembered of a file at the point. -/
def remembered (p : IdlePoint name) (file : String) : Option (Option TypeTable) :=
  Note.remembered p.monitor.config file (past p.files p.moves p.number)

/-- The monitor after a session was begun at the point and some steps were taken. -/
def report? (p : IdlePoint name) (steps : List Step) : Option Monitor :=
  (Report.final p.watch (performAll p.watch (.act (.start name) :: steps))).monitors.item? p.number

theorem sound (p : IdlePoint name) : p.watch.Sound := by
  have hsound := Sound.start p.files
  have hallowed := hsound.allows_movesAll p.steps
  obtain ⟨rest, hrest⟩ := p.reached
  rw [← hrest, allowsAll_append] at hallowed
  exact hsound.afterAll hallowed.1

theorem lookup_tables (p : IdlePoint name) (file : String) :
    p.monitor.tables.lookup file = p.remembered file :=
  (holds_past p.files p.steps p.reached p.there).tables file

theorem sessionOf_eq (p : IdlePoint name) : p.watch.sessionOf p.number = none := by
  rw [sessionOf, watch, p.there, Option.bind_some]
  exact Option.isNone_iff_eq_none.mp (by simpa [Monitor.isTracing] using p.idle)

/-- The session is begun, since the monitor is idle. -/
theorem report?_eq (p : IdlePoint name) (steps : List Step) :
    p.report? steps = (Report.final (p.watch.enter p.number)
      (performAll (p.watch.enter p.number) steps)).monitors.item? p.number := by
  have hnamed : p.watch.monitors.number? name = some p.number := p.named
  have hstart : (p.watch.act (.start name)).2 = p.watch.enter p.number := act_start hnamed p.sessionOf_eq
  rw [report?, final_performAll_cons, perform, Report.after, hstart]

theorem agree_enter {p₁ p₂ : IdlePoint name} (hconfig : p₁.monitor.config = p₂.monitor.config)
    (hfiles : p₁.watch.files = p₂.watch.files)
    (hremembered : ∀ file, p₁.remembered file = p₂.remembered file) :
    Agree name p₁.number p₂.number (p₁.watch.enter p₁.number) (p₂.watch.enter p₂.number) := by
  have hlt (p : IdlePoint name) : p.number < p.watch.monitors.items.length := p.sound.named name _ p.named
  have hsound (p : IdlePoint name) := p.sound.enter (hlt p) p.sessionOf_eq
  have hitem (p : IdlePoint name) : (p.watch.enter p.number).monitors.item? p.number =
      some (p.monitor.begun p.watch.registry.next) := by
    have hthere : p.watch.monitors.item? p.number = some p.monitor := p.there
    rw [item?_enter, if_pos rfl, hthere, Option.map_some]
  -- no guard that was made before is one of the new sessions
  have hends (p : IdlePoint name) (guard : String) :
      (p.watch.enter p.number).ends p.number (p.watch.guards.lookup guard) = false := by
    cases hg : p.watch.guards.lookup guard with
    | none => rfl
    | some g =>
      have hlive := isLive_enter (hlt p) p.sessionOf_eq g (p.sound.guards guard g hg) p.number
      rw [ends, Option.any_some, hlive, isLive, p.sessionOf_eq]
      simp
  refine ⟨hsound p₁, hsound p₂, hfiles, p₁.named, p₂.named, ⟨_, _, hitem p₁, hitem p₂, ?_⟩, ?_⟩
  · refine Monitor.begun_alike hconfig (fun file => ?_) _ _
    rw [p₁.lookup_tables, p₂.lookup_tables, hremembered]
  · intro guard
    refine ⟨(hsound p₁).guards guard, (hsound p₂).guards guard, ?_⟩
    exact (hends p₁ guard).trans (hends p₂ guard).symm

/-- Two sessions of which the same is remembered when they are begun report the same after the same steps. -/
theorem reports_eq {p₁ p₂ : IdlePoint name} (hconfig : p₁.monitor.config = p₂.monitor.config)
    (hfiles : p₁.watch.files = p₂.watch.files)
    (hremembered : ∀ file, p₁.remembered file = p₂.remembered file) {steps : List Step}
    (hkeep : Step.keepsToAll name steps) :
    ∃ m₁ m₂, p₁.report? steps = some m₁ ∧ p₂.report? steps = some m₂ ∧
      m₁.findings = m₂.findings ∧ m₁.errors = m₂.errors := by
  have hagree := agree_enter hconfig hfiles hremembered
  obtain ⟨m₁, m₂, h₁, h₂, halike⟩ := (Agree.performAll hagree steps hkeep).agree.monitors
  exact ⟨m₁, m₂, (p₁.report?_eq steps).trans h₁, (p₂.report?_eq steps).trans h₂, halike.findings,
    halike.errors⟩

end IdlePoint

/-- What a monitor reports of a session is told by the session, by the files and by what is remembered of
them when it is begun. While a session goes on, a file of which nothing was remembered has one error if it
is read and has no table then, and no error otherwise. -/
theorem sessions_isolated (name : String) :
    (∀ p₁ p₂ : IdlePoint name, p₁.monitor.config = p₂.monitor.config → p₁.watch.files = p₂.watch.files →
      (∀ file, p₁.remembered file = p₂.remembered file) →
      ∀ steps, Step.keepsToAll name steps →
        ∃ m₁ m₂, p₁.report? steps = some m₁ ∧ p₂.report? steps = some m₂ ∧
          m₁.findings = m₂.findings ∧ m₁.errors = m₂.errors) ∧
    ∀ files steps moves, moves <+: movesAll (start files) steps →
      ∀ n m, ((start files).afterAll moves).monitors.item? n = some m →
      ∀ during before, past files moves n = during ++ .begun :: before →
        (∀ note ∈ during, ∃ files frame, note = .shown files frame) →
      ∀ file, Note.remembered m.config file before = none →
        m.errors.filter (fun e => e.file == file) = (Note.firstFailure m.config file during).toList := by
  refine ⟨?_, ?_⟩
  · intro p₁ p₂ hconfig hfiles hremembered steps hkeep
    exact IdlePoint.reports_eq hconfig hfiles hremembered hkeep
  · intro files steps moves hp n m hm during before hpast hduring file hnone
    rw [(holds_past files steps hp hm).errors, hpast]
    exact (Note.errors_during m.config file hduring (Option.map_eq_none_iff.mp hnone)).2

end Watch

/-! ## Runs -/

/-- The sample after the program was spoilt. -/
def Sample.spoilt : FileStore := Sample.files.write "/app/a.py" "(".toUTF8

theorem Sample.watches_spoilt : Sample.config.watches Sample.spoilt Sample.frame = true := by decide +kernel

theorem Sample.ofFile_spoilt : ∃ e, TypeTable.ofFile Sample.spoilt.read "/app/a.py" = .error e := by
  have herror : (TypeTable.ofFile Sample.spoilt.read "/app/a.py").isOk = false := by decide +kernel
  cases ht : TypeTable.ofFile Sample.spoilt.read "/app/a.py" with
  | error e => exact ⟨e, rfl⟩
  | ok table =>
    rw [ht] at herror
    cases herror

/-- A program that reaches the line and fails then. -/
def Sample.steps : List Step :=
  [.act (.create "m" Sample.config), .run "m" [.act (.emit (Sample.lineIn "/app/a.py"))] true]

/-- The monitor in its first session, after the line was reached. -/
def Sample.reached (files : FileStore) : Monitor :=
  ((Monitor.ofConfig Sample.config).begun 1).observe files Sample.frame

theorem Sample.config_reached (files : FileStore) : (Sample.reached files).config = Sample.config :=
  Monitor.config_observe _ _ _

theorem Sample.holds_reached (files : FileStore) :
    (Sample.reached files).Holds [.shown files Sample.frame, .begun] :=
  ((Monitor.holds_ofConfig Sample.config).begun 1).observe files Sample.frame

/-- The sample, whose frame is checked or not before the file is spoilt. -/
def Sample.spoiling (checked : Bool) : List Step :=
  .act (.create "m" Sample.config) :: (if checked then [.act (.inspect "m" Sample.frame)] else []) ++
    [.act (.write "/app/a.py" "(".toUTF8)]

namespace Watch

/-- The point at which the file is spoilt. -/
def IdlePoint.spoilt (checked : Bool) : IdlePoint "m" where
  files := Sample.files
  steps := Sample.spoiling checked
  moves := movesAll (Watch.start Sample.files) (Sample.spoiling checked)
  reached := List.prefix_rfl
  number := 0
  monitor := if checked then (Monitor.ofConfig Sample.config).observe Sample.files Sample.frame
    else Monitor.ofConfig Sample.config
  named := by cases checked <;> rfl
  there := by cases checked <;> rfl
  idle := by cases checked <;> simp [Monitor.isTracing, Monitor.ofConfig]

/-- A frame that was checked before the session has its file checked in it as it was, and the error of the
file as it is now is not seen. -/
theorem sessions_not_isolated :
    ∃ p₁ p₂ : IdlePoint "m", p₁.monitor.config = p₂.monitor.config ∧ p₁.watch.files = p₂.watch.files ∧
      ∃ steps, Step.keepsToAll "m" steps ∧
        ∃ m₁ m₂, p₁.report? steps = some m₁ ∧ p₂.report? steps = some m₂ ∧
          m₁.findings.length = 1 ∧ m₂.findings.length = 0 ∧
          m₁.errors.length = 0 ∧ m₂.errors.length = 1 := by
  obtain ⟨table, htable, hone⟩ := Sample.conformant
  obtain ⟨e, he⟩ := Sample.ofFile_spoilt
  have hlength : (Sample.frame.declaredFindings table).length = 1 := by
    simpa using congrArg List.length hone
  have hfile : Sample.frame.file = "/app/a.py" := rfl
  have h₁ : (IdlePoint.spoilt true).report? [.act (.emit (Sample.lineIn "/app/a.py"))] =
      some ((((Monitor.ofConfig Sample.config).observe Sample.files Sample.frame).begun 1).observe
        Sample.spoilt Sample.frame) := by
    rw [IdlePoint.report?_eq]
    rfl
  have h₂ : (IdlePoint.spoilt false).report? [.act (.emit (Sample.lineIn "/app/a.py"))] =
      some (Sample.reached Sample.spoilt) := by
    rw [IdlePoint.report?_eq]
    rfl
  have hold₁ := (((Monitor.holds_ofConfig Sample.config).observe Sample.files Sample.frame).begun 1).observe
    Sample.spoilt Sample.frame
  have hold₂ := Sample.holds_reached Sample.spoilt
  have hc₁ : ((((Monitor.ofConfig Sample.config).observe Sample.files Sample.frame).begun 1).observe
      Sample.spoilt Sample.frame).config = Sample.config := by simp [Monitor.begun, Monitor.ofConfig]
  have hfiles (checked : Bool) : (IdlePoint.spoilt checked).watch.files = Sample.spoilt := by
    cases checked <;> rfl
  refine ⟨.spoilt true, .spoilt false, ?_, (hfiles true).trans (hfiles false).symm,
    [.act (.emit (Sample.lineIn "/app/a.py"))],
    ⟨trivial, trivial⟩, _, _, h₁, h₂, ?_, ?_, ?_, ?_⟩
  · simp [IdlePoint.spoilt]
  · rw [hold₁.findings, hc₁]
    simpa [Note.sightings, Sighting.findings, Sighting.table, Note.firstRead, Sample.watches_files,
      Sample.watches_spoilt, hfile, htable] using hlength
  · rw [hold₂.findings, Sample.config_reached]
    simp [Note.sightings, Sighting.findings, Sighting.table, Note.firstRead, hfile, he]
  · rw [hold₁.errors, hc₁]
    simp [Note.sightings, Sighting.failure?, Note.firstRead, Sample.watches_files]
  · rw [hold₂.errors, Sample.config_reached]
    simp [Note.sightings, Sighting.failure?, Sighting.table, Note.firstRead, Sample.watches_spoilt, hfile, he]

theorem isLive_of_sample :
    ((start Sample.files).afterAll ((movesAll (start Sample.files) Sample.steps).take 3)).isLive 0 ⟨0, 1⟩ =
      true :=
  (isLive_iff _ _ _).mpr ⟨rfl, sessionOf_emit _ (Sample.lineIn "/app/a.py") 0⟩

def IdlePoint.ran : IdlePoint "m" where
  files := Sample.files
  steps := Sample.steps
  moves := movesAll (Watch.start Sample.files) Sample.steps
  reached := List.prefix_rfl
  number := 0
  monitor := (Sample.reached Sample.files).ended
  named := release_same (fun w => w.monitors.number? "m") (fun _ _ _ => rfl) _ ⟨0, 1⟩
  there := by
    refine (item?_release _ ⟨0, 1⟩ 0).trans ?_
    exact (if_pos isLive_of_sample).trans rfl
  idle := rfl

def IdlePoint.made : IdlePoint "m" where
  files := Sample.files
  steps := Sample.steps
  moves := (movesAll (Watch.start Sample.files) Sample.steps).take 1
  reached := List.take_prefix 1 _
  number := 0
  monitor := .ofConfig Sample.config
  named := rfl
  there := rfl
  idle := rfl

/-- A monitor finds the same in a program after it ran one before. A file that has no table gives the
monitor that runs a program one error. -/
theorem isolated_of_sample :
    (∃ m₁ m₂, IdlePoint.ran.report? [.act (.emit (Sample.lineIn "/app/a.py"))] = some m₁ ∧
      IdlePoint.made.report? [.act (.emit (Sample.lineIn "/app/a.py"))] = some m₂ ∧
      m₁.findings = m₂.findings ∧ m₁.errors = m₂.errors ∧
      m₂.findings.map Finding.isConformant = [true]) ∧
    ∃ moves m, moves <+: movesAll (start Sample.spoilt) Sample.steps ∧
      ((start Sample.spoilt).afterAll moves).monitors.item? 0 = some m ∧
      (m.errors.filter fun e => e.file == "/app/a.py").length = 1 := by
  have hfile : Sample.frame.file = "/app/a.py" := rfl
  refine ⟨?_, ?_⟩
  · obtain ⟨table, htable, hone⟩ := Sample.conformant
    have hpast : past Sample.files (movesAll (start Sample.files) Sample.steps) 0 =
        [.ended, .shown Sample.files Sample.frame, .begun] := by
      have hended : ((start Sample.files).afterAll
          ((movesAll (start Sample.files) Sample.steps).take 3)).notes 0 (.leave ⟨0, 1⟩) = [.ended] := by
        rw [notes, endedWith, if_pos isLive_of_sample]
      have hall := (start Sample.files).notesAll_append 0
        ((movesAll (start Sample.files) Sample.steps).take 3) [.leave ⟨0, 1⟩]
      rw [notesAll, notesAll, hended] at hall
      exact congrArg List.reverse hall
    have hfiles : IdlePoint.ran.watch.files = IdlePoint.made.watch.files :=
      release_same Watch.files (fun _ _ _ => rfl) _ ⟨0, 1⟩
    have hremembered (file : String) : IdlePoint.ran.remembered file = IdlePoint.made.remembered file := by
      exact congrArg (Note.remembered IdlePoint.ran.monitor.config file) hpast
    obtain ⟨m₁, m₂, h₁, h₂, hfindings, herrors⟩ := (sessions_isolated "m").1 .ran .made
      (Sample.config_reached Sample.files) hfiles hremembered
      [.act (.emit (Sample.lineIn "/app/a.py"))] ⟨trivial, trivial⟩
    refine ⟨m₁, m₂, h₁, h₂, hfindings, herrors, ?_⟩
    have hm₂ : m₂ = Sample.reached Sample.files := by
      rw [IdlePoint.report?_eq] at h₂
      exact (Option.some.inj h₂).symm
    rw [hm₂, (Sample.holds_reached Sample.files).findings, Sample.config_reached]
    simpa [Note.sightings, Sighting.findings, Sample.watches_files, Sighting.table, Note.firstRead, hfile,
      htable] using hone
  · obtain ⟨e, he⟩ := Sample.ofFile_spoilt
    have hp : (movesAll (start Sample.spoilt) Sample.steps).take 3 <+:
        movesAll (start Sample.spoilt) Sample.steps := List.take_prefix 3 _
    have hm : ((start Sample.spoilt).afterAll
        ((movesAll (start Sample.spoilt) Sample.steps).take 3)).monitors.item? 0 =
        some (Sample.reached Sample.spoilt) := rfl
    have herrors := (sessions_isolated "m").2 Sample.spoilt Sample.steps _ hp 0 _ hm
      [.shown Sample.spoilt Sample.frame] [] rfl (by simp) "/app/a.py" rfl
    refine ⟨_, _, hp, hm, ?_⟩
    rw [herrors, Sample.config_reached]
    simp [Note.firstFailure, Note.firstRead, Sample.watches_spoilt, hfile, he]

end Watch
end TypeWatch
