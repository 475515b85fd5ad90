import TypeWatch.Monitor.Basic
import TypeWatch.Monitor.Registry

/-! Monitors that watch running programs: a session of a monitor is a subscription to the events, and a
guard ends the session that it was made with, and no other. -/
namespace TypeWatch
set_option autoImplicit false

/-! ## State -/

/-- Who is told of events, by number. -/
inductive Subscriber where
  | monitor (n : Nat)
  | recorder (n : Nat)
  deriving DecidableEq, Repr

/-- A subscriber that keeps the events which it is told of. -/
structure Recorder where
  subscription : SubscriptionId
  events : List Event

structure Guard where
  monitor : Nat
  session : SubscriptionId
  deriving DecidableEq, Repr

structure Watch where
  files : FileStore
  registry : Registry Subscriber
  monitors : Catalogue Monitor
  recorders : Catalogue Recorder
  guards : List (String × Guard)

namespace Watch

def start (files : FileStore) : Watch := ⟨files, .empty, .empty, .empty, []⟩

/-! ## Sessions -/

/-- Begins a session of a monitor, whose subscription has the number `w.registry.next`. -/
def enter (w : Watch) (n : Nat) : Watch :=
  { w with
    registry := w.registry.subscribe (.monitor n)
    monitors := w.monitors.modify n fun m => m.begun w.registry.next }

/-- Ends the session of a monitor that has the given subscription. -/
def leave (w : Watch) (n : Nat) (id : SubscriptionId) : Watch :=
  { w with
    registry := w.registry.unsubscribe id
    monitors := w.monitors.modify n Monitor.ended }

def sessionOf (w : Watch) (n : Nat) : Option SubscriptionId := (w.monitors.item? n).bind Monitor.session

/-- Begins a session of an idle monitor. Its guard is made with it. -/
def openSession (w : Watch) (n : Nat) : Except MonitorError (Watch × Guard) :=
  match w.sessionOf n with
  | some _ => .error .alreadyTracing
  | none => .ok (w.enter n, ⟨n, w.registry.next⟩)

/-- Ends the session of a monitor, whoever began it. -/
def closeSession (w : Watch) (n : Nat) : Except MonitorError Watch :=
  match w.sessionOf n with
  | some id => .ok (w.leave n id)
  | none => .error .notTracing

/-- Ends the session that a guard was made with, if it still goes on. -/
def release (w : Watch) (g : Guard) : Watch :=
  if w.sessionOf g.monitor = some g.session then w.leave g.monitor g.session else w

/-! ## Events -/

/-- Tells one subscriber of an event. -/
def deliver (e : Event) (w : Watch) : Subscriber → Watch
  | .monitor n => { w with monitors := w.monitors.modify n fun m => m.observe w.files e.frame }
  | .recorder n =>
    { w with recorders := w.recorders.modify n fun r => { r with events := r.events ++ [e] } }

def emit (w : Watch) (e : Event) : Watch := w.registry.subscribers.foldl (deliver e) w

/-! ## Guards and recorders -/

/-- Holds a guard under a name. The guard that was held under it is released. -/
def hold (w : Watch) (name : String) (g : Guard) : Watch :=
  let held := { w with guards := (name, g) :: w.guards.filter fun x => x.1 != name }
  match w.guards.lookup name with
  | some old => held.release old
  | none => held

/-- Gives up the guard that is held under a name. -/
def drop (w : Watch) (name : String) : Watch :=
  match w.guards.lookup name with
  | some g => { w with guards := w.guards.filter fun x => x.1 != name }.release g
  | none => w

/-- Adds a subscriber that records all events from now on. -/
def addRecorder (w : Watch) (name : String) : Watch :=
  { w with
    registry := w.registry.subscribe (.recorder w.recorders.items.length)
    recorders := w.recorders.add name ⟨w.registry.next, []⟩ }

end Watch
end TypeWatch
