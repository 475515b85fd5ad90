import TypeWatch.Proofs.Monitor.Registration

/-! # Guards and their sessions

A guard ends the session that it was made with, if nothing has ended the session before, and it ends no
other one (`guards_end_own_session`). So the session in which a program is run is over after the run, and
a session that the program has left behind goes on. -/
namespace TypeWatch.Watch
set_option autoImplicit false

/-! ## A session that goes on -/

theorem begun_not_mem_notes {w : Watch} {n : Nat} (ht : w.isTracing n = true) (move : Move) :
    Note.begun ∉ w.notes n move := by
  have hended (g : Option Guard) : Note.begun ∉ w.endedWith n g := by
    rw [endedWith_eq]
    split <;> simp
  have hbegun (k : Nat) : w.begunBy n k = [] :=
    if_neg fun h => Bool.false_ne_true (h.2.symm.trans ht)
  cases move with
  | enter k => simp [notes, hbegun]
  | leave g => exact hended (some g)
  | act action =>
    cases action with
    | start name => simp [notes, hbegun]
    | stop name => rw [notes]; split <;> simp
    | hold guard name =>
      rw [notes]
      split
      · split
        · exact List.not_mem_nil
        · rw [hbegun]
          exact hended _
      · exact List.not_mem_nil
    | drop guard => exact hended _
    | emit event => rw [notes]; split <;> simp
    | inspect name frame => rw [notes]; split <;> simp
    | _ => exact List.not_mem_nil

theorem lt_of_sessionOf {w : Watch} {n : Nat} {id : SubscriptionId} (hs : w.sessionOf n = some id) :
    n < w.monitors.items.length := by
  refine Nat.lt_of_not_le fun hle => ?_
  rw [sessionOf_of_length_le w n hle] at hs
  exact absurd hs nofun

theorem Sound.session_lt {w : Watch} (h : w.Sound) {n : Nat} {id : SubscriptionId}
    (hs : w.sessionOf n = some id) : id < w.registry.next :=
  h.below _ ((h.entry_iff n id).mpr hs)

/-- A session goes on through a move that does not end it. -/
theorem sessionOf_after_iff {w : Watch} (h : w.Sound) {move : Move} (hm : w.Allows move) {n : Nat}
    {id : SubscriptionId} (hs : w.sessionOf n = some id) :
    (w.after move).sessionOf n = some id ↔ .ended ∉ w.notes n move := by
  have hn := lt_of_sessionOf hs
  have hafter := item?_after h hm (n := n) fun _ _ _ => Nat.ne_of_lt hn
  obtain ⟨m, hmonitor, hsession⟩ := Option.bind_eq_some_iff.mp hs
  have hbegun := begun_not_mem_notes (Option.isSome_iff_exists.mpr ⟨id, hs⟩) move
  rw [sessionOf, hafter, hmonitor]
  simp only [Option.map_some, Option.bind_some]
  rw [m.session_takeAll (Nat.ne_of_lt (h.session_lt hs))]
  simp [hsession, hbegun]

/-- A session that is not the one of a monitor, under a number that was given before, never is again. -/
theorem sessionOf_after_ne {w : Watch} (h : w.Sound) {move : Move} (hm : w.Allows move) {n : Nat}
    {id : SubscriptionId} (hn : n < w.monitors.items.length) (hid : id < w.registry.next)
    (hs : w.sessionOf n ≠ some id) : (w.after move).sessionOf n ≠ some id := by
  have hafter := item?_after h hm (n := n) fun _ _ _ => Nat.ne_of_lt hn
  intro hnew
  obtain ⟨m, hmonitor, hsession⟩ := Option.bind_eq_some_iff.mp hnew
  rw [hafter] at hmonitor
  obtain ⟨m₀, hmonitor₀, rfl⟩ := Option.map_eq_some_iff.mp hmonitor
  have hbefore := ((m₀.session_takeAll (Nat.ne_of_lt hid) _).mp hsession).1
  exact hs (Option.bind_eq_some_iff.mpr ⟨m₀, hmonitor₀, hbefore⟩)

theorem sessionOf_afterAll_ne {w : Watch} (h : w.Sound) {moves : List Move} (hm : w.AllowsAll moves)
    {n : Nat} {id : SubscriptionId} (hn : n < w.monitors.items.length) (hid : id < w.registry.next)
    (hs : w.sessionOf n ≠ some id) : (w.afterAll moves).sessionOf n ≠ some id := by
  induction moves generalizing w with
  | nil => exact hs
  | cons move moves ih =>
    refine ih (h.after hm.1) hm.2 ?_ ?_ (sessionOf_after_ne h hm.1 hn hid hs)
    · exact Nat.lt_of_lt_of_le hn (length_le_after h hm.1)
    · exact Nat.lt_of_lt_of_le hid (w.next_le_after move)

/-- A session goes on through some moves if and only if none of them ends a session of the monitor. -/
theorem sessionOf_afterAll_iff {w : Watch} (h : w.Sound) {moves : List Move} (hm : w.AllowsAll moves)
    {n : Nat} {id : SubscriptionId} (hs : w.sessionOf n = some id) :
    (w.afterAll moves).sessionOf n = some id ↔ .ended ∉ w.notesAll n moves := by
  induction moves generalizing w with
  | nil => simp [hs, notesAll]
  | cons move moves ih =>
    have hone := sessionOf_after_iff h hm.1 hs
    rw [afterAll_cons, notesAll, List.mem_append, not_or]
    by_cases hended : Note.ended ∈ w.notes n move
    · have hgone : (w.after move).sessionOf n ≠ some id := fun hafter => hone.mp hafter hended
      have hn := Nat.lt_of_lt_of_le (lt_of_sessionOf hs) (length_le_after h hm.1)
      have hid := Nat.lt_of_lt_of_le (h.session_lt hs) (w.next_le_after move)
      have hnever := sessionOf_afterAll_ne (h.after hm.1) hm.2 hn hid hgone
      simp [hended, hnever]
    · simp [hended, ih (h.after hm.1) hm.2 (hone.mpr hended)]

/-! ## Guards that are made -/

/-- The guard that a move makes, with the session that it begins. -/
def made? (w : Watch) : Move → Option Guard
  | .act (.hold _ name) =>
    (w.monitors.number? name).bind fun n =>
      if w.sessionOf n = none then some ⟨n, w.registry.next⟩ else none
  | .enter n => some ⟨n, w.registry.next⟩
  | _ => none

theorem sessionOf_made {w : Watch} (h : w.Sound) {move : Move} (hm : w.Allows move) {g : Guard}
    (hg : w.made? move = some g) : (w.after move).sessionOf g.monitor = some g.session := by
  cases move with
  | enter n =>
    obtain rfl := Option.some.inj hg
    rw [after, sessionOf_enter w n n hm.1, if_pos rfl]
  | leave g => cases hg
  | act action =>
    cases action with
    | hold guard name =>
      obtain ⟨n, hn, hif⟩ := Option.bind_eq_some_iff.mp hg
      obtain ⟨hs, hnew⟩ := Option.ite_none_right_eq_some.mp hif
      obtain rfl := Option.some.inj hnew
      rw [after, act_hold hn hs]
      exact sessionOf_hold h (h.named name n hn) hs guard
    | _ => cases hg

/-- A guard that is held after a move was held before it, or is made by it. -/
theorem lookup_after {w : Watch} {move : Move} {name : String} {g : Guard}
    (hg : (w.after move).guards.lookup name = some g) :
    w.guards.lookup name = some g ∨ w.made? move = some g := by
  cases move with
  | enter n => exact Or.inl hg
  | leave other =>
    rw [after, release_same Watch.guards (fun _ _ _ => rfl)] at hg
    exact Or.inl hg
  | act action =>
    rw [after, lookup_act] at hg
    cases action with
    | hold guard monitor =>
      simp only [made?]
      cases hn : w.monitors.number? monitor with
      | none => exact Or.inl (by simpa [hn] using hg)
      | some n =>
        simp only [hn] at hg
        by_cases hnew : name = guard ∧ w.sessionOf n = none
        · rw [if_pos hnew] at hg
          rw [Option.bind_some, if_pos hnew.2]
          exact Or.inr hg
        · rw [if_neg hnew] at hg
          exact Or.inl hg
    | drop guard => exact Or.inl (Option.ite_none_left_eq_some.mp hg).2
    | _ => exact Or.inl hg

/-- A guard that is held was made by one of the moves so far. -/
theorem lookup_afterAll {w : Watch} {moves : List Move} {name : String} {g : Guard}
    (hg : (w.afterAll moves).guards.lookup name = some g) :
    w.guards.lookup name = some g ∨ ∃ before opening later, moves = before ++ opening :: later ∧
      (w.afterAll before).made? opening = some g := by
  induction moves generalizing w with
  | nil => exact Or.inl hg
  | cons move moves ih =>
    rcases ih hg with hafter | ⟨before, opening, later, rfl, hmade⟩
    · rcases lookup_after hafter with hbefore | hmade
      · exact Or.inl hbefore
      · exact Or.inr ⟨[], move, moves, rfl, hmade⟩
    · exact Or.inr ⟨move :: before, opening, later, rfl, hmade⟩

/-! ## Giving up a guard -/

/-- What giving up a guard does, if the given notes are what has happened to its monitor since the guard
was made. -/
structure EndsOwn (w : Watch) (g : Guard) (since : List Note) : Prop where
  ends : (∃ n, w.isTracing n = true ∧ (w.release g).isTracing n = false) ↔ .ended ∉ since
  own : .ended ∉ since → w.sessionOf g.monitor = some g.session ∧
    w.release g = w.leave g.monitor g.session
  stale : .ended ∈ since → w.release g = w
  drop : ∀ name, w.guards.lookup name = some g →
    w.drop name = { w.release g with guards := w.guards.filter fun x => x.1 != name }

theorem endsOwn_of_iff {w : Watch} {g : Guard} {since : List Note}
    (h : w.sessionOf g.monitor = some g.session ↔ .ended ∉ since) : w.EndsOwn g since := by
  have hown (hs : w.sessionOf g.monitor = some g.session) : w.release g = w.leave g.monitor g.session :=
    if_pos hs
  have hstale (hs : w.sessionOf g.monitor ≠ some g.session) : w.release g = w := if_neg hs
  refine ⟨⟨?_, fun hgoes => ?_⟩, fun hgoes => ⟨h.mpr hgoes, hown (h.mpr hgoes)⟩, ?_, fun name hname => ?_⟩
  · rintro ⟨n, hbefore, hafter⟩
    refine h.mp (by_contra fun hs => ?_)
    rw [hstale hs, hbefore] at hafter
    exact absurd hafter nofun
  · have hs := h.mpr hgoes
    refine ⟨g.monitor, Option.isSome_iff_exists.mpr ⟨_, hs⟩, ?_⟩
    rw [hown hs, isTracing, sessionOf_leave, if_pos rfl]
    rfl
  · intro hended
    exact hstale fun hs => h.mp hs hended
  · rw [Watch.drop, hname, ← release_guards]

/-- A guard ends the session that it was made with, as long as nothing else has. -/
theorem endsOwn_afterAll {w : Watch} (h : w.Sound) {opening : Move} {later : List Move}
    (hm : w.AllowsAll (opening :: later)) {g : Guard} (hg : w.made? opening = some g) :
    (w.afterAll (opening :: later)).EndsOwn g ((w.after opening).notesAll g.monitor later) :=
  endsOwn_of_iff (sessionOf_afterAll_iff (h.after hm.1) hm.2 (sessionOf_made h hm.1 hg))

/-! ## Runs -/

/-- An entry after some moves was there before them, or has a number that was not given yet. -/
theorem entries_afterAll {w : Watch} {moves : List Move} {e : SubscriptionId × Subscriber}
    (he : e ∈ (w.afterAll moves).registry.entries) :
    e ∈ w.registry.entries ∨ w.registry.next ≤ e.1 := by
  induction moves generalizing w with
  | nil => exact Or.inl he
  | cons move moves ih =>
    rcases ih he with hafter | hnew
    · exact (w.growsBy_after move e hafter).imp_right fun heq => Nat.le_of_eq heq.symm
    · exact Or.inr (Nat.le_trans (w.next_le_after move) hnew)

/-- A number under which a monitor began a session has no entry once the session is over. -/
theorem not_mem_ids {w : Watch} (h : w.Sound) {moves : List Move} (hm : w.AllowsAll moves) {n : Nat}
    {id : SubscriptionId} (hs : w.sessionOf n = some id)
    (hover : (w.afterAll moves).sessionOf n ≠ some id) : id ∉ (w.afterAll moves).registry.ids := by
  intro hid
  obtain ⟨e, he, rfl⟩ := List.mem_map.mp hid
  have hentry := (h.entry_iff n e.1).mpr hs
  rcases entries_afterAll he with hbefore | hnew
  · rw [eq_of_ordered h.ordered hbefore hentry rfl] at he
    exact hover (((h.afterAll hm).entry_iff n e.1).mp he)
  · exact Nat.lt_irrefl _ (Nat.lt_of_lt_of_le (h.session_lt hs) hnew)

/-- What has become of the session of a run after the run, if `final` is how the program left the watch
and the given notes are what happened to the monitor in the program. -/
structure RunOver (final after : Watch) (g : Guard) (during : List Note) : Prop where
  «over» : after.sessionOf g.monitor ≠ some g.session
  gone : g.session ∉ after.registry.ids
  own : .ended ∉ during → final.sessionOf g.monitor = some g.session ∧
    after = final.leave g.monitor g.session
  stale : .ended ∈ during → after = final
  later : ∀ id, final.sessionOf g.monitor = some id → id ≠ g.session → after = final

theorem sessionOf_release_ne (w : Watch) (g : Guard) :
    (w.release g).sessionOf g.monitor ≠ some g.session := by
  by_cases hs : w.sessionOf g.monitor = some g.session
  · rw [release, if_pos hs, sessionOf_leave, if_pos rfl]
    rintro ⟨⟩
  · rwa [release, if_neg hs]

/-- A program is run in a session of its own, which is over after the run. -/
theorem runOver {w : Watch} (h : w.Sound) {n : Nat} (hn : n < w.monitors.items.length)
    (hs : w.sessionOf n = none) (program : List Step) :
    RunOver (Report.final (w.enter n) (performAll (w.enter n) program))
      ((Report.final (w.enter n) (performAll (w.enter n) program)).release ⟨n, w.registry.next⟩)
      ⟨n, w.registry.next⟩ ((w.enter n).notesAll n (movesAll (w.enter n) program)) := by
  have hinside := h.enter hn hs
  have hopened : (w.enter n).sessionOf n = some w.registry.next := by
    rw [sessionOf_enter w n n hn, if_pos rfl]
  have hallowed := hinside.allows_movesAll program
  have hends := endsOwn_of_iff (g := ⟨n, w.registry.next⟩) (sessionOf_afterAll_iff hinside hallowed hopened)
  have hafter : (w.enter n).afterAll (movesAll (w.enter n) program ++ [.leave ⟨n, w.registry.next⟩]) =
      (Report.final (w.enter n) (performAll (w.enter n) program)).release ⟨n, w.registry.next⟩ := by
    rw [afterAll_append, afterAll_movesAll]
    rfl
  rw [afterAll_movesAll] at hends
  refine ⟨sessionOf_release_ne _ _, ?_, hends.own, hends.stale, ?_⟩
  · rw [← hafter]
    refine not_mem_ids hinside ?_ hopened ?_
    · exact (allowsAll_append _ _ _).mpr ⟨hallowed, trivial, trivial⟩
    · rw [hafter]
      exact sessionOf_release_ne _ _
  · intro id hid hne
    refine if_neg fun hs => hne ?_
    exact Option.some.inj (hid.symm.trans hs)

theorem perform_run {w : Watch} {name : String} {n : Nat} (hn : w.monitors.number? name = some n)
    (hs : w.sessionOf n = none) (program : List Step) (fails : Bool) :
    perform w (.run name program fails) = .ran w (performAll (w.enter n) program) fails
      ((Report.final (w.enter n) (performAll (w.enter n) program)).release ⟨n, w.registry.next⟩) := by
  rw [perform, hn]
  simp only [openSession_eq, hs, if_true]

/-! ## Guards at every point of a run -/

/-- At every point of a run, within programs and after them, giving up a guard ends the session that it
was made with if nothing has ended it since, and changes nothing otherwise. The session of a program
that is run is over after the run, and one that the program began later goes on as the program left it. -/
theorem guards_end_own_session (files : FileStore) (steps : List Step) :
    (∀ w ∈ Report.watchesAll (performAll (start files) steps),
      ∃ moves, moves <+: movesAll (start files) steps ∧ w = (start files).afterAll moves) ∧
    ∀ moves w, moves <+: movesAll (start files) steps → w = (start files).afterAll moves →
      (∀ name g, w.guards.lookup name = some g → ∃ before opening later,
        moves = before ++ opening :: later ∧ ((start files).afterAll before).made? opening = some g) ∧
      (∀ before opening later g, moves = before ++ opening :: later →
        ((start files).afterAll before).made? opening = some g →
        w.EndsOwn g (((start files).afterAll (before ++ [opening])).notesAll g.monitor later)) ∧
      ∀ name n, w.monitors.number? name = some n → w.sessionOf n = none → ∀ program fails, ∃ after,
        perform w (.run name program fails) =
          .ran w (performAll (w.enter n) program) fails after ∧
        RunOver (Report.final (w.enter n) (performAll (w.enter n) program)) after ⟨n, w.registry.next⟩
          ((w.enter n).notesAll n (movesAll (w.enter n) program)) := by
  refine ⟨watches_performAll (start files) steps, ?_⟩
  rintro moves w ⟨rest, hrest⟩ rfl
  have hstart := Sound.start files
  have hallowed := hstart.allows_movesAll steps
  rw [← hrest, allowsAll_append] at hallowed
  have hsound := hstart.afterAll hallowed.1
  refine ⟨fun name g hg => ?_, fun before opening later g hmoves hg => ?_, ?_⟩
  · exact (lookup_afterAll hg).resolve_left nofun
  · rw [hmoves, allowsAll_append] at hallowed
    rw [hmoves, afterAll_append, afterAll_append]
    exact endsOwn_afterAll (hstart.afterAll hallowed.1.1) hallowed.1.2 hg
  · intro name n hn hs program fails
    exact ⟨_, perform_run hn hs program fails, runOver hsound (hsound.named name n hn) hs program⟩

/-! ## A run -/

/-- A guard is held while its monitor is stopped and started again. -/
def restarts : List Step :=
  [.act (.create "m" .standard), .act (.hold "g" "m"), .act (.stop "m"), .act (.start "m")]

/-- The guard of a session that was stopped leaves the next session running. After a program that does
the same within a run, the session that it began goes on. -/
theorem guards_of_restarts :
    (∃ w, w = (start .empty).afterAll (movesAll (start .empty) restarts) ∧
      w.guards.lookup "g" = some ⟨0, 1⟩ ∧ w.release ⟨0, 1⟩ = w ∧ w.sessionOf 0 = some 2) ∧
    ∃ w after, w = (start .empty).afterAll [.act (.create "m" .standard)] ∧
      perform w (.run "m" [.act (.stop "m"), .act (.start "m")] true) =
        .ran w (performAll (w.enter 0) [.act (.stop "m"), .act (.start "m")]) true after ∧
      after = Report.final (w.enter 0) (performAll (w.enter 0) [.act (.stop "m"), .act (.start "m")]) ∧
      after.sessionOf 0 = some 2 := by
  have hpoints := (guards_end_own_session .empty restarts).2
  constructor
  · obtain ⟨-, hguards, -⟩ := hpoints (movesAll (start .empty) restarts) _ List.prefix_rfl rfl
    have hends := hguards [.act (.create "m" .standard)] (.act (.hold "g" "m"))
      [.act (.stop "m"), .act (.start "m")] ⟨0, 1⟩ rfl rfl
    exact ⟨_, rfl, rfl, hends.stale List.mem_cons_self, rfl⟩
  · obtain ⟨-, -, hruns⟩ := hpoints [.act (.create "m" .standard)] _ ⟨_, rfl⟩ rfl
    obtain ⟨after, hran, hover⟩ := hruns "m" 0 rfl rfl [.act (.stop "m"), .act (.start "m")] true
    have hfinal := hover.later 2 rfl nofun
    refine ⟨_, after, rfl, hran, hfinal, ?_⟩
    rw [hfinal]
    rfl

end TypeWatch.Watch
