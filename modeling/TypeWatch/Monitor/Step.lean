import TypeWatch.Monitor.Watch

/-! What can happen in a watch, step by step. A program that a monitor runs is a list of steps; the
session of the run is over after it, however the program ends. -/
namespace TypeWatch
set_option autoImplicit false

/-! ## Steps -/

/-- A single change. Monitors, guards and recorders are given by name, and nothing happens if no one
has the name. -/
inductive Action where
  | create (monitor : String) (config : Config)
  | start (monitor : String)
  | stop (monitor : String)
  /-- Begins a session and holds its guard. -/
  | hold (guard monitor : String)
  | drop (guard : String)
  | emit (event : Event)
  /-- Has a monitor check a frame, in a session or not. -/
  | inspect (monitor : String) (frame : Frame)
  | record (recorder : String)
  | unsubscribe (recorder : String)
  | write (path : String) (content : ByteArray)
  | delete (path : String)
  | makeDirectory (path : String)
  | look

inductive Step where
  | act (action : Action)
  /-- Runs a program in a session of a monitor. The program may fail at its end. -/
  | run (monitor : String) (program : List Step) (fails : Bool)

instance : Inhabited Step := ⟨.act .look⟩

/-! ## Answers -/

inductive Reply where
  | done
  | answer (yes : Bool)
  | refused (error : MonitorError)
  deriving DecidableEq, Repr

/-- What came of a step, between the watch before it and the watch after it. -/
inductive Report where
  | acted (before : Watch) (reply : Reply) (after : Watch)
  | ran (before : Watch) (steps : List Report) (failed : Bool) (after : Watch)
  /-- The program was not run, and nothing has changed. -/
  | refused (before : Watch) (error : MonitorError)

def Report.before : Report → Watch
  | acted w _ _ | ran w _ _ _ | refused w _ => w

def Report.after : Report → Watch
  | acted _ _ w | ran _ _ _ w | refused w _ => w

/-- The watch after some steps, of which `w` was the watch before the first. -/
def Report.final (w : Watch) (reports : List Report) : Watch :=
  (reports.getLast?.map Report.after).getD w

namespace Watch

/-! ## Actions -/

def startMonitor (w : Watch) (n : Nat) : Reply × Watch :=
  match w.openSession n with
  | .ok (after, _) => (.done, after)
  | .error e => (.refused e, w)

def stopMonitor (w : Watch) (n : Nat) : Reply × Watch :=
  match w.closeSession n with
  | .ok after => (.done, after)
  | .error e => (.refused e, w)

def holdSession (w : Watch) (name : String) (n : Nat) : Reply × Watch :=
  match w.openSession n with
  | .ok (after, g) =>
    let held := after.hold name g
    (.answer (held.sessionOf n).isSome, held)
  | .error e => (.refused e, w)

/-- What happens to the thing with a name. -/
def onName {α : Type} (w : Watch) (c : Catalogue α) (name : String) (f : Nat → Reply × Watch) :
    Reply × Watch :=
  match c.number? name with
  | some n => f n
  | none => (.done, w)

/-- Whether a change of the files could be made, and the watch after it. -/
def changeFiles (w : Watch) : Option FileStore → Reply × Watch
  | some files => (.answer true, { w with files := files })
  | none => (.answer false, w)

def unsubscribe (w : Watch) (name : String) : Reply × Watch :=
  match w.recorders.get? name with
  | some r =>
    (.answer (w.registry.contains r.subscription),
      { w with registry := w.registry.unsubscribe r.subscription })
  | none => (.answer false, w)

def act (w : Watch) : Action → Reply × Watch
  | .create name config => (.done, { w with monitors := w.monitors.add name (Monitor.ofConfig config) })
  | .start name => w.onName w.monitors name w.startMonitor
  | .stop name => w.onName w.monitors name w.stopMonitor
  | .hold guard name => w.onName w.monitors name (w.holdSession guard)
  | .drop guard => (.answer (w.guards.lookup guard).isSome, w.drop guard)
  | .emit event => (.done, w.emit event)
  | .inspect name frame =>
    w.onName w.monitors name fun n =>
      (.done, { w with monitors := w.monitors.modify n fun m => m.observe w.files frame })
  | .record name => (.done, w.addRecorder name)
  | .unsubscribe name => w.unsubscribe name
  | .write path content => (.done, { w with files := w.files.write path content })
  | .delete path => w.changeFiles (w.files.delete? path)
  | .makeDirectory path => w.changeFiles (w.files.makeDirectory? path)
  | .look => (.done, w)

/-! ## Runs -/

mutual

def perform (w : Watch) : Step → Report
  | .act action => .acted w (w.act action).1 (w.act action).2
  | .run name program fails =>
    match w.monitors.number? name with
    | none => .acted w .done w
    | some n =>
      match w.openSession n with
      | .error e => .refused w e
      | .ok (inside, g) =>
        let steps := performAll inside program
        .ran w steps fails ((Report.final inside steps).release g)

def performAll (w : Watch) : List Step → List Report
  | [] => []
  | step :: steps =>
    let report := perform w step
    report :: performAll report.after steps

end

end Watch
end TypeWatch
