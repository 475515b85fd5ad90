import TypeWatch.Proofs.Monitor.History

/-! # What comes of an action

All that an action may do to a watch (`Acts`), and when it does nothing (`Ignores`). What is said of all
actions is said case by case of this relation (`acts_act`). -/
namespace TypeWatch.Watch
set_option autoImplicit false

/-- Whether an action is about something that is not there, or cannot be done. -/
def Ignores (w : Watch) : Action → Prop
  | .start name | .hold _ name => ∀ n, w.monitors.number? name = some n → w.sessionOf n ≠ none
  | .stop name => ∀ n, w.monitors.number? name = some n → w.sessionOf n = none
  | .inspect name _ => w.monitors.number? name = none
  | .unsubscribe name => w.recorders.get? name = none
  | .delete path => w.files.delete? path = none
  | .makeDirectory path => w.files.makeDirectory? path = none
  | .look => True
  | .create _ _ | .drop _ | .emit _ | .record _ | .write _ _ => False

/-- What an action may do. -/
inductive Acts (w : Watch) : Action → Watch → Prop
  | create (name : String) (c : Config) :
      Acts w (.create name c) { w with monitors := w.monitors.add name (Monitor.ofConfig c) }
  | enter {name : String} {n : Nat} : w.monitors.number? name = some n → w.sessionOf n = none →
      Acts w (.start name) (w.enter n)
  | leave {name : String} {n : Nat} {id : SubscriptionId} : w.monitors.number? name = some n →
      w.sessionOf n = some id → Acts w (.stop name) (w.leave n id)
  | hold {guard name : String} {n : Nat} : w.monitors.number? name = some n → w.sessionOf n = none →
      Acts w (.hold guard name) ((w.enter n).hold guard ⟨n, w.registry.next⟩)
  | drop (guard : String) : Acts w (.drop guard) (w.drop guard)
  | emit (e : Event) : Acts w (.emit e) (w.emit e)
  | inspect {name : String} {n : Nat} (frame : Frame) : w.monitors.number? name = some n →
      Acts w (.inspect name frame)
        { w with monitors := w.monitors.modify n fun m => m.observe w.files frame }
  | record (name : String) : Acts w (.record name) (w.addRecorder name)
  | unsubscribe {name : String} {r : Recorder} : w.recorders.get? name = some r →
      Acts w (.unsubscribe name) { w with registry := w.registry.unsubscribe r.subscription }
  | write (path : String) (content : ByteArray) :
      Acts w (.write path content) { w with files := w.files.write path content }
  | delete {path : String} {files : FileStore} : w.files.delete? path = some files →
      Acts w (.delete path) { w with files := files }
  | makeDirectory {path : String} {files : FileStore} : w.files.makeDirectory? path = some files →
      Acts w (.makeDirectory path) { w with files := files }
  | nothing {action : Action} : w.Ignores action → Acts w action w

/-! ## Sessions of idle monitors -/

section Idle

variable {w : Watch} {name : String} {n : Nat}

theorem act_start (hn : w.monitors.number? name = some n) (hs : w.sessionOf n = none) :
    (w.act (.start name)).2 = w.enter n := by
  simp [act, onName, hn, startMonitor, openSession_eq, hs]

theorem act_hold {guard : String} (hn : w.monitors.number? name = some n) (hs : w.sessionOf n = none) :
    (w.act (.hold guard name)).2 = (w.enter n).hold guard ⟨n, w.registry.next⟩ := by
  simp [act, onName, hn, holdSession, openSession_eq, hs]

end Idle

/-! ## All actions -/

theorem acts_act (w : Watch) (action : Action) : w.Acts action (w.act action).2 := by
  cases action with
  | create name c => exact .create name c
  | start name =>
    rw [act, onName]
    cases hn : w.monitors.number? name with
    | none => exact .nothing fun n h => absurd (hn.symm.trans h) nofun
    | some n =>
      simp only [startMonitor, openSession_eq]
      by_cases hs : w.sessionOf n = none
      · rw [if_pos hs]
        exact .enter hn hs
      · rw [if_neg hs]
        exact .nothing fun k h => Option.some.inj (hn.symm.trans h) ▸ hs
  | stop name =>
    rw [act, onName]
    cases hn : w.monitors.number? name with
    | none => exact .nothing fun n h => absurd (hn.symm.trans h) nofun
    | some n =>
      simp only [stopMonitor, closeSession]
      cases hs : w.sessionOf n with
      | none => exact .nothing fun k h => Option.some.inj (hn.symm.trans h) ▸ hs
      | some id => exact .leave hn hs
  | hold guard name =>
    rw [act, onName]
    cases hn : w.monitors.number? name with
    | none => exact .nothing fun n h => absurd (hn.symm.trans h) nofun
    | some n =>
      simp only [holdSession, openSession_eq]
      by_cases hs : w.sessionOf n = none
      · rw [if_pos hs]
        exact .hold hn hs
      · rw [if_neg hs]
        exact .nothing fun k h => Option.some.inj (hn.symm.trans h) ▸ hs
  | drop guard => exact .drop guard
  | emit e => exact .emit e
  | inspect name frame =>
    rw [act, onName]
    cases hn : w.monitors.number? name with
    | none => exact .nothing hn
    | some n => exact .inspect frame hn
  | record name => exact .record name
  | unsubscribe name =>
    rw [act, Watch.unsubscribe]
    cases hr : w.recorders.get? name with
    | none => exact .nothing hr
    | some r => exact .unsubscribe hr
  | write path content => exact .write path content
  | delete path =>
    rw [act]
    cases hfiles : w.files.delete? path with
    | none => exact .nothing hfiles
    | some files => exact .delete hfiles
  | makeDirectory path =>
    rw [act]
    cases hfiles : w.files.makeDirectory? path with
    | none => exact .nothing hfiles
    | some files => exact .makeDirectory hfiles
  | look => exact .nothing trivial

/-- What is ignored is nothing to a monitor. -/
theorem notes_of_ignores {w : Watch} {action : Action} (h : w.Ignores action) (n : Nat) :
    w.notes n (.act action) = [] := by
  cases action with
  | start name =>
    rw [notes]
    split
    · rename_i hn
      have ht : w.isTracing n = true := Option.isSome_iff_ne_none.mpr (h n hn)
      simp [begunBy, ht]
    · rfl
  | stop name =>
    rw [notes, if_neg]
    rintro ⟨hn, ht⟩
    simp [isTracing, h n hn] at ht
  | hold guard name =>
    rw [notes]
    cases hn : w.monitors.number? name with
    | none => rfl
    | some k => exact if_pos (Option.isSome_iff_ne_none.mpr (h k hn))
  | inspect name frame =>
    rw [notes, show w.monitors.number? name = none from h]
    rfl
  | drop guard => exact h.elim
  | emit event => exact h.elim
  | _ => rfl

end TypeWatch.Watch
