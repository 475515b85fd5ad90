import TypeWatch.Monitor.Step

/-! # Histories of watches

A run of steps, however deeply programs are nested in it, is a line of single moves: every state that the
run goes through is the state after some beginning of the line (`afterAll_movesAll`). What a monitor
takes part in is read off the line move by move: the sessions that are begun and ended, and the frames
that it is shown. -/
namespace TypeWatch
set_option autoImplicit false

/-! ## Moves -/

/-- A change that is made at once: an action, or the beginning or the end of the session in which a
program is run. -/
inductive Move where
  | act (action : Action)
  | enter (monitor : Nat)
  | leave (guard : Guard)

namespace Watch

def after (w : Watch) : Move → Watch
  | .act action => (w.act action).2
  | .enter n => w.enter n
  | .leave g => w.release g

def afterAll (w : Watch) (moves : List Move) : Watch := moves.foldl after w

@[simp] theorem afterAll_nil (w : Watch) : w.afterAll [] = w := rfl

@[simp] theorem afterAll_cons (w : Watch) (move : Move) (moves : List Move) :
    w.afterAll (move :: moves) = (w.after move).afterAll moves := rfl

@[simp] theorem afterAll_append (w : Watch) (a b : List Move) :
    w.afterAll (a ++ b) = (w.afterAll a).afterAll b := by
  simp [afterAll]

/-! ## Steps as moves -/

mutual

/-- The moves that a step is. A program that is refused makes none. -/
def moves (w : Watch) : Step → List Move
  | .act action => [.act action]
  | .run name program _ =>
    match w.monitors.number? name with
    | none => []
    | some n =>
      match w.openSession n with
      | .error _ => []
      | .ok (inside, g) => .enter n :: movesAll inside program ++ [.leave g]

def movesAll (w : Watch) : List Step → List Move
  | [] => []
  | step :: steps => moves w step ++ movesAll (perform w step).after steps

end

theorem final_performAll_cons (w : Watch) (step : Step) (steps : List Step) :
    Report.final w (performAll w (step :: steps)) =
      Report.final (perform w step).after (performAll (perform w step).after steps) := by
  rw [performAll]
  cases h : performAll (perform w step).after steps with
  | nil => rfl
  | cons r rs => simp [Report.final, List.getLast?_cons]

/-- A session is begun by the move that enters it. -/
theorem openSession_eq (w : Watch) (n : Nat) :
    w.openSession n = if w.sessionOf n = none then .ok (w.enter n, ⟨n, w.registry.next⟩)
      else .error .alreadyTracing := by
  unfold openSession
  cases h : w.sessionOf n <;> simp

mutual

/-- The moves of a step lead to the watch after it. -/
theorem afterAll_moves (w : Watch) : ∀ step : Step, w.afterAll (moves w step) = (perform w step).after
  | .act action => rfl
  | .run name program fails => by
    rw [moves, perform]
    cases hn : w.monitors.number? name with
    | none => rfl
    | some n =>
      by_cases hs : w.sessionOf n = none
      · simp only [openSession_eq, hs, if_true, List.cons_append, afterAll_cons, afterAll_append]
        have h := afterAll_movesAll (w.enter n) program
        rw [show w.after (.enter n) = w.enter n from rfl, h]
        rfl
      · simp only [openSession_eq, hs, if_false]
        rfl

theorem afterAll_movesAll (w : Watch) :
    ∀ steps : List Step, w.afterAll (movesAll w steps) = Report.final w (performAll w steps)
  | [] => rfl
  | step :: steps => by
    rw [movesAll, afterAll_append, afterAll_moves w step, final_performAll_cons]
    exact afterAll_movesAll (perform w step).after steps

end

/-! ## Points of a run -/

end Watch

mutual

/-- The watches that a report tells of, before and after each step at any depth. -/
def Report.watches : Report → List Watch
  | .acted before _ after => [before, after]
  | .ran before steps _ after => before :: watchesAll steps ++ [after]
  | .refused before _ => [before]

def Report.watchesAll : List Report → List Watch
  | [] => []
  | report :: reports => report.watches ++ watchesAll reports

end

namespace Watch

mutual

theorem watches_perform (w : Watch) :
    ∀ step : Step, ∀ v ∈ (perform w step).watches, ∃ ms, ms <+: moves w step ∧ v = w.afterAll ms
  | .act action, v, hv => by
    rw [perform, Report.watches, List.mem_cons, List.mem_singleton] at hv
    rcases hv with rfl | rfl
    · exact ⟨[], List.nil_prefix, rfl⟩
    · exact ⟨[.act action], List.prefix_rfl, rfl⟩
  | .run name program fails, v, hv => by
    rw [perform] at hv
    rw [moves]
    cases hn : w.monitors.number? name with
    | none =>
      simp only [hn, Report.watches, List.mem_cons, List.not_mem_nil, or_false, or_self] at hv
      exact ⟨[], List.nil_prefix, hv⟩
    | some n =>
      by_cases hs : w.sessionOf n = none
      · simp only [hn, openSession_eq, hs, if_true, Report.watches, List.cons_append, List.mem_cons,
          List.mem_append, List.not_mem_nil, or_false] at hv
        simp only [openSession_eq, hs, if_true, List.cons_append]
        rcases hv with rfl | hv | hv
        · exact ⟨[], List.nil_prefix, rfl⟩
        · obtain ⟨ms, hms, rfl⟩ := watches_performAll (w.enter n) program v hv
          refine ⟨.enter n :: ms, List.cons_prefix_cons.mpr ⟨rfl, ?_⟩, rfl⟩
          exact hms.trans (List.prefix_append _ _)
        · refine ⟨_, List.prefix_rfl, ?_⟩
          rw [hv, afterAll_cons, afterAll_append, ← afterAll_movesAll]
          rfl
      · simp only [hn, openSession_eq, hs, if_false, Report.watches, List.mem_singleton] at hv
        exact ⟨[], List.nil_prefix, hv⟩

/-- Every point of a run is reached by a beginning of its moves. -/
theorem watches_performAll (w : Watch) : ∀ steps : List Step,
    ∀ v ∈ Report.watchesAll (performAll w steps), ∃ ms, ms <+: movesAll w steps ∧ v = w.afterAll ms
  | [], v, hv => by simp [performAll, Report.watchesAll] at hv
  | step :: steps, v, hv => by
    rw [performAll, Report.watchesAll, List.mem_append] at hv
    rw [movesAll]
    rcases hv with hv | hv
    · obtain ⟨ms, hms, rfl⟩ := watches_perform w step v hv
      exact ⟨ms, hms.trans (List.prefix_append _ _), rfl⟩
    · obtain ⟨ms, hms, rfl⟩ := watches_performAll (perform w step).after steps v hv
      refine ⟨moves w step ++ ms, List.prefix_append_right_inj _ |>.mpr hms, ?_⟩
      rw [afterAll_append, afterAll_moves]

end

end Watch

/-! ## What a monitor takes part in -/

/-- What happens to a monitor: a session of it is begun or ended, or it is shown a frame while the files
are as given. -/
inductive Note where
  | begun
  | ended
  | shown (files : FileStore) (frame : Frame)

namespace Watch

def isTracing (w : Watch) (n : Nat) : Bool := (w.sessionOf n).isSome

/-- Whether a guard is one of the session that a monitor is in. -/
def isLive (w : Watch) (n : Nat) (g : Guard) : Bool :=
  g.monitor = n && w.sessionOf n = some g.session

/-- The end of the session of a monitor, if one is ended with a guard that is given up. -/
def endedWith (w : Watch) (n : Nat) : Option Guard → List Note
  | some g => if w.isLive n g then [.ended] else []
  | none => []

/-- What happens to a monitor if a session of the monitor with the number `k` is asked for. -/
def begunBy (w : Watch) (n k : Nat) : List Note := if k = n ∧ w.isTracing n = false then [.begun] else []

/-- What a move is to a monitor. An event reaches it in a session, and a frame that it is to check
reaches it always. -/
def notes (w : Watch) (n : Nat) : Move → List Note
  | .act (.start name) => if w.monitors.number? name = some n then w.begunBy n n else []
  | .act (.stop name) =>
    if w.monitors.number? name = some n ∧ w.isTracing n then [.ended] else []
  | .act (.hold guard name) =>
    match w.monitors.number? name with
    | some k => if w.isTracing k then [] else w.begunBy n k ++ w.endedWith n (w.guards.lookup guard)
    | none => []
  | .act (.drop guard) => w.endedWith n (w.guards.lookup guard)
  | .act (.emit event) => if w.isTracing n then [.shown w.files event.frame] else []
  | .act (.inspect name frame) =>
    if w.monitors.number? name = some n then [.shown w.files frame] else []
  | .act _ => []
  | .enter k => w.begunBy n k
  | .leave g => w.endedWith n (some g)

def notesAll (w : Watch) (n : Nat) : List Move → List Note
  | [] => []
  | move :: moves => w.notes n move ++ (w.after move).notesAll n moves

theorem notesAll_append (w : Watch) (n : Nat) (a b : List Move) :
    w.notesAll n (a ++ b) = w.notesAll n a ++ (w.afterAll a).notesAll n b := by
  induction a generalizing w with
  | nil => rfl
  | cons move a ih => simp only [List.cons_append, notesAll, ih, afterAll_cons, List.append_assoc]

end Watch
end TypeWatch
