import Mathlib.Data.List.Basic
import Mathlib.Data.List.Induction
import TypeWatch.Proofs.Monitor.Isolation

/-! # The registry and the sessions

At every point of a run the registry has one entry for each monitor in a session, under the number of the
session, and one for each recorder that has not unsubscribed, and no others (`registry_tells_sessions`).
The numbers that are given out in a run increase, so that none is given twice. -/
namespace TypeWatch
set_option autoImplicit false

/-! ## Numbers -/

/-- The numbers of the subscriptions, in the order of the registry. -/
def Registry.ids {α : Type} (r : Registry α) : List SubscriptionId := r.entries.map Prod.fst

def Subscriber.monitor? : Subscriber → Option Nat
  | .monitor n => some n
  | .recorder _ => none

def Subscriber.recorder? : Subscriber → Option Nat
  | .monitor _ => none
  | .recorder n => some n

theorem Subscriber.monitor?_eq_some {s : Subscriber} {n : Nat} : s.monitor? = some n ↔ s = .monitor n := by
  cases s <;> simp [monitor?]

theorem Subscriber.recorder?_eq_some {s : Subscriber} {n : Nat} :
    s.recorder? = some n ↔ s = .recorder n := by
  cases s <;> simp [recorder?]

/-- The things in a list are counted by their places. -/
theorem countP_range_getElem? {α : Type} (l : List α) (p : α → Bool) :
    ((List.range l.length).countP fun n => (l[n]?).any p) = l.countP p := by
  induction l using List.reverseRecOn with
  | nil => rfl
  | append_singleton l a ih =>
    rw [List.length_append, List.length_singleton, List.range_succ, List.countP_append, List.countP_append,
      ← ih]
    congr 1
    · refine List.countP_congr fun n hn => ?_
      rw [List.getElem?_append_left (List.mem_range.mp hn)]
    · simp

namespace Watch

/-- The numbers that subscribers have after a move, and that none had before it. -/
def issued (w : Watch) (move : Move) : List SubscriptionId :=
  (w.after move).registry.ids.filter fun id => !w.registry.ids.contains id

/-- The numbers that are given to subscribers by some moves, in the order of the moves. -/
def issuedAll (w : Watch) : List Move → List SubscriptionId
  | [] => []
  | move :: moves => w.issued move ++ (w.after move).issuedAll moves

/-! ## Entries after a move -/

/-- The entries that a watch may have after a move: those from before, and one under the next number. -/
def GrowsBy (w v : Watch) : Prop :=
  ∀ e ∈ v.registry.entries, e ∈ w.registry.entries ∨ e.1 = w.registry.next

theorem growsBy_of_eq {w v : Watch} (h : v.registry = w.registry) : GrowsBy w v := by
  intro e he
  rw [h] at he
  exact Or.inl he

theorem growsBy_unsubscribe {w v : Watch} {id : SubscriptionId}
    (h : v.registry = w.registry.unsubscribe id) : GrowsBy w v := by
  intro e he
  rw [h] at he
  exact Or.inl (List.mem_filter.mp he).1

theorem growsBy_subscribe {w v : Watch} {s : Subscriber} (h : v.registry = w.registry.subscribe s) :
    GrowsBy w v := by
  intro e he
  rw [h] at he
  rcases List.mem_append.mp he with he | he
  · exact Or.inl he
  · rw [List.mem_singleton.mp he]
    exact Or.inr rfl

theorem GrowsBy.release {w v : Watch} (h : GrowsBy w v) (g : Guard) : GrowsBy w (v.release g) := by
  unfold Watch.release
  split
  · intro e he
    exact h e (List.mem_filter.mp he).1
  · exact h

theorem growsBy_act (w : Watch) (action : Action) : GrowsBy w (w.act action).2 := by
  have hacts := w.acts_act action
  generalize (w.act action).2 = v at hacts ⊢
  cases hacts with
  | enter _ _ => exact growsBy_subscribe rfl
  | leave _ _ => exact growsBy_unsubscribe rfl
  | @hold guard name n _ _ =>
    have henter : GrowsBy w (w.enter n) := growsBy_subscribe rfl
    unfold hold
    split
    · refine GrowsBy.release ?_ _
      exact henter
    · exact henter
  | drop guard =>
    unfold drop
    split
    · refine GrowsBy.release ?_ _
      exact growsBy_of_eq rfl
    · exact growsBy_of_eq rfl
  | emit e =>
    exact growsBy_of_eq (foldl_deliver_same Watch.registry e (fun w s => by cases s <;> rfl) _ w)
  | record name => exact growsBy_subscribe rfl
  | unsubscribe _ => exact growsBy_unsubscribe rfl
  | _ => exact growsBy_of_eq rfl

theorem growsBy_after (w : Watch) (move : Move) : GrowsBy w (w.after move) := by
  cases move with
  | act action => exact w.growsBy_act action
  | enter n => exact growsBy_subscribe rfl
  | leave g => exact (growsBy_of_eq rfl).release g

theorem Sound.ids_ordered {w : Watch} (h : w.Sound) : w.registry.ids.Pairwise (· < ·) :=
  List.pairwise_map.mpr h.ordered

/-- A number that a move gives out is none that was given before, and all later ones are greater. -/
theorem issued_bounds {w : Watch} (h : w.Sound) {move : Move} (hm : w.Allows move) {id : SubscriptionId}
    (hid : id ∈ w.issued move) : w.registry.next ≤ id ∧ id < (w.after move).registry.next := by
  obtain ⟨hin, hnew⟩ := List.mem_filter.mp hid
  obtain ⟨e, he, rfl⟩ := List.mem_map.mp hin
  refine ⟨?_, (h.after hm).below e he⟩
  rcases w.growsBy_after move e he with hold | hnext
  · have hmem : e.1 ∈ w.registry.ids := List.mem_map_of_mem hold
    simp [hmem] at hnew
  · exact Nat.le_of_eq hnext.symm

theorem next_le_issuedAll {w : Watch} (h : w.Sound) {moves : List Move} (hm : w.AllowsAll moves)
    {id : SubscriptionId} (hid : id ∈ w.issuedAll moves) : w.registry.next ≤ id := by
  induction moves generalizing w with
  | nil => exact absurd hid List.not_mem_nil
  | cons move moves ih =>
    rcases List.mem_append.mp hid with hid | hid
    · exact (issued_bounds h hm.1 hid).1
    · exact Nat.le_trans (w.next_le_after move) (ih (h.after hm.1) hm.2 hid)

/-- No number is given twice. -/
theorem issuedAll_ordered {w : Watch} (h : w.Sound) {moves : List Move} (hm : w.AllowsAll moves) :
    (w.issuedAll moves).Pairwise (· < ·) := by
  induction moves generalizing w with
  | nil => exact .nil
  | cons move moves ih =>
    have hafter := h.after hm.1
    refine List.pairwise_append.mpr ⟨hafter.ids_ordered.filter _, ih hafter hm.2, ?_⟩
    intro a ha b hb
    exact Nat.lt_of_lt_of_le (issued_bounds h hm.1 ha).2 (next_le_issuedAll hafter hm.2 hb)

/-- A number in the registry was there before some moves or is given out by them. -/
theorem mem_issuedAll {w : Watch} {moves : List Move} {id : SubscriptionId}
    (hid : id ∈ (w.afterAll moves).registry.ids) : id ∈ w.registry.ids ∨ id ∈ w.issuedAll moves := by
  induction moves generalizing w with
  | nil => exact Or.inl hid
  | cons move moves ih =>
    rcases ih hid with hafter | hlater
    · by_cases hbefore : id ∈ w.registry.ids
      · exact Or.inl hbefore
      · refine Or.inr (List.mem_append_left _ (List.mem_filter.mpr ⟨hafter, ?_⟩))
        simp [hbefore]
    · exact Or.inr (List.mem_append_right _ hlater)

/-! ## Entries of monitors -/

/-- The entries of a monitor in the registry. -/
def entriesOf (w : Watch) (n : Nat) : List (SubscriptionId × Subscriber) :=
  w.registry.entries.filter fun e => e.2 = .monitor n

/-- A monitor has one entry in a session, under the number of the session, and none when it is idle. -/
theorem Sound.entriesOf_eq {w : Watch} (h : w.Sound) (n : Nat) :
    w.entriesOf n = (w.sessionOf n).toList.map fun id => (id, .monitor n) := by
  have hall : ∀ e ∈ w.entriesOf n, ∃ id, w.sessionOf n = some id ∧ e = (id, .monitor n) := by
    intro e he
    obtain ⟨hin, hn⟩ := List.mem_filter.mp he
    have hpair : e = (e.1, .monitor n) := Prod.ext rfl (by simpa using hn)
    exact ⟨e.1, (h.entry_iff n e.1).mp (hpair ▸ hin), hpair⟩
  cases hs : w.sessionOf n with
  | none =>
    refine List.eq_nil_iff_forall_not_mem.mpr fun e he => ?_
    obtain ⟨id, hid, -⟩ := hall e he
    exact absurd (hs.symm.trans hid) nofun
  | some id =>
    have hmem : (id, .monitor n) ∈ w.entriesOf n :=
      List.mem_filter.mpr ⟨(h.entry_iff n id).mpr hs, by simp⟩
    have hone : ∀ e ∈ w.entriesOf n, e = (id, .monitor n) := by
      intro e he
      obtain ⟨id', hid', rfl⟩ := hall e he
      rw [Option.some.inj (hs.symm.trans hid')]
    have hordered : (w.entriesOf n).Pairwise fun a b => a.1 < b.1 := h.ordered.filter _
    -- a second entry would be the same, and its number greater
    match hentries : w.entriesOf n with
    | [] => rw [hentries] at hmem; exact absurd hmem List.not_mem_nil
    | [e] => exact congrArg (fun e => [e]) (hone e (by rw [hentries]; exact List.mem_cons_self))
    | a :: b :: es =>
      rw [hentries] at hordered hone
      have hlt := (List.pairwise_cons.mp hordered).1 b List.mem_cons_self
      rw [hone a List.mem_cons_self, hone b (List.mem_cons_of_mem _ List.mem_cons_self)] at hlt
      exact absurd hlt (Nat.lt_irrefl _)

/-- The monitors that have an entry, in the order of the registry. -/
def subscribedMonitors (w : Watch) : List Nat := w.registry.entries.filterMap fun e => e.2.monitor?

/-- The recorders that have an entry, in the order of the registry. -/
def subscribedRecorders (w : Watch) : List Nat := w.registry.entries.filterMap fun e => e.2.recorder?

theorem size_eq_length_add (w : Watch) :
    w.registry.size = w.subscribedMonitors.length + w.subscribedRecorders.length := by
  rw [Registry.size, subscribedMonitors, subscribedRecorders]
  induction w.registry.entries with
  | nil => rfl
  | cons e es ih =>
    obtain ⟨id, s⟩ := e
    cases s <;> simp [Subscriber.monitor?, Subscriber.recorder?, ih] <;> omega

theorem Sound.mem_subscribedMonitors {w : Watch} (h : w.Sound) (n : Nat) :
    n ∈ w.subscribedMonitors ↔ w.isTracing n = true := by
  rw [isTracing, Option.isSome_iff_exists, subscribedMonitors, List.mem_filterMap]
  constructor
  · rintro ⟨e, he, hn⟩
    exact ⟨e.1, (h.entry_iff n e.1).mp (Subscriber.monitor?_eq_some.mp hn ▸ he)⟩
  · rintro ⟨id, hid⟩
    exact ⟨_, (h.entry_iff n id).mpr hid, rfl⟩

theorem Sound.nodup_subscribedMonitors {w : Watch} (h : w.Sound) : w.subscribedMonitors.Nodup := by
  refine List.Pairwise.filterMap (S := (· ≠ ·)) _ ?_ (List.Pairwise.and_mem.mp h.ordered)
  rintro a b ⟨ha, hb, hlt⟩ n hn k hk rfl
  have hsession {e : SubscriptionId × Subscriber} (he : e ∈ w.registry.entries)
      (hmon : e.2.monitor? = some n) : w.sessionOf n = some e.1 :=
    (h.entry_iff n e.1).mp (Subscriber.monitor?_eq_some.mp hmon ▸ he)
  have hsame := Option.some.inj ((hsession ha hn).symm.trans (hsession hb hk))
  rw [hsame] at hlt
  exact Nat.lt_irrefl _ hlt

/-- As many monitors have an entry as are in a session. -/
theorem Sound.length_subscribedMonitors {w : Watch} (h : w.Sound) :
    w.subscribedMonitors.length = w.monitors.items.countP Monitor.isTracing := by
  have hsame : w.subscribedMonitors.Perm
      ((List.range w.monitors.items.length).filter fun n => (w.monitors.items[n]?).any Monitor.isTracing) := by
    refine (List.perm_ext_iff_of_nodup h.nodup_subscribedMonitors
      (List.nodup_range.filter _)).mpr fun n => ?_
    rw [h.mem_subscribedMonitors, List.mem_filter, List.mem_range, isTracing, sessionOf, Catalogue.item?]
    cases hm : w.monitors.items[n]? with
    | none => simp
    | some m => simpa [Monitor.isTracing] using fun _ => (List.getElem?_eq_some_iff.mp hm).1
  rw [hsame.length_eq, ← List.countP_eq_length_filter, countP_range_getElem?]

/-! ## Recorders that listen -/

/-- The recorders that listen after a move, if those given did before it. -/
def listen (w : Watch) (listening : List Nat) : Move → List Nat
  | .act (.record _) => listening ++ [w.recorders.items.length]
  | .act (.unsubscribe name) => listening.filter fun k => w.recorders.number? name != some k
  | _ => listening

/-- The recorders that subscribed and did not unsubscribe since, in the order in which they did. -/
def listenAll (w : Watch) (listening : List Nat) : List Move → List Nat
  | [] => listening
  | move :: moves => (w.after move).listenAll (w.listen listening move) moves

theorem release_guards (w : Watch) (gs : List (String × Guard)) (g : Guard) :
    ({ w with guards := gs } : Watch).release g = { w.release g with guards := gs } := by
  rw [release, release, show ({ w with guards := gs } : Watch).sessionOf g.monitor = w.sessionOf g.monitor
    from rfl]
  split <;> rfl

/-- The entries of recorders are those of the ones that listen, each under a number of its own. -/
structure Hears (w : Watch) (listening : List Nat) : Prop where
  entries : w.subscribedRecorders = listening
  own : ∀ id k, (id, Subscriber.recorder k) ∈ w.registry.entries →
    (w.recorders.items.map Recorder.subscription)[k]? = some id
  ordered : (w.recorders.items.map Recorder.subscription).Pairwise (· < ·)

namespace Hears

variable {w v : Watch} {listening : List Nat}

theorem of_same (h : w.Hears listening) (registry : v.registry = w.registry)
    (recorders : v.recorders.items.map Recorder.subscription =
      w.recorders.items.map Recorder.subscription) : v.Hears listening where
  entries := by rw [← h.entries, subscribedRecorders, registry, subscribedRecorders]
  own := by rw [registry, recorders]; exact h.own
  ordered := by rw [recorders]; exact h.ordered

theorem enter (h : w.Hears listening) (n : Nat) : (w.enter n).Hears listening where
  entries := by
    rw [← h.entries, subscribedRecorders, subscribedRecorders, Watch.enter, Registry.subscribe,
      List.filterMap_append]
    exact List.append_nil _
  own id k hk := by
    rcases List.mem_append.mp hk with hk | hk
    · exact h.own id k hk
    · cases List.mem_singleton.mp hk
  ordered := h.ordered

/-- An entry of a monitor that is taken out is none of a recorder. -/
theorem leave (h : w.Hears listening) (hw : w.Sound) {n : Nat} {id : SubscriptionId}
    (hs : w.sessionOf n = some id) : (w.leave n id).Hears listening where
  entries := by
    rw [← h.entries, subscribedRecorders, subscribedRecorders, Watch.leave, Registry.unsubscribe,
      List.filterMap_filter]
    refine List.filterMap_congr fun e he => ?_
    by_cases hid : e.1 = id
    · rw [eq_of_ordered hw.ordered he ((hw.entry_iff n id).mpr hs) hid]
      simp [Subscriber.recorder?]
    · simp [hid]
  own i k hk := h.own i k (List.mem_filter.mp hk).1
  ordered := h.ordered

theorem release (h : w.Hears listening) (hw : w.Sound) (g : Guard) : (w.release g).Hears listening := by
  unfold Watch.release
  split
  · rename_i hs
    exact h.leave hw hs
  · exact h

theorem addRecorder (h : w.Hears listening) (hw : w.Sound) (name : String) :
    (w.addRecorder name).Hears (listening ++ [w.recorders.items.length]) where
  entries := by
    rw [← h.entries, subscribedRecorders, subscribedRecorders, Watch.addRecorder, Registry.subscribe,
      List.filterMap_append]
    rfl
  own id k hk := by
    simp only [Watch.addRecorder, Catalogue.add, List.map_append]
    rcases List.mem_append.mp hk with hk | hk
    · have hown := h.own id k hk
      rw [List.getElem?_append_left (List.getElem?_eq_some_iff.mp hown).1, hown]
    · obtain ⟨rfl, hnew⟩ := Prod.mk.inj (List.mem_singleton.mp hk)
      simp [Subscriber.recorder.inj hnew]
  ordered := by
    simp only [Watch.addRecorder, Catalogue.add, List.map_append]
    refine List.pairwise_append.mpr ⟨h.ordered, List.pairwise_singleton _ _, ?_⟩
    intro a ha b hb
    obtain ⟨r, hr, rfl⟩ := List.mem_map.mp ha
    rw [List.mem_singleton.mp hb]
    exact (hw.recorders r hr).1

/-- A recorder gives up its own entry, and no other recorder's. -/
theorem unsubscribe (h : w.Hears listening) (name : String) :
    (w.unsubscribe name).2.Hears (listening.filter fun k => w.recorders.number? name != some k) := by
  unfold Watch.unsubscribe
  cases hr : w.recorders.get? name with
  | none =>
    have hall : ∀ k ∈ listening, (w.recorders.number? name != some k) = true := by
      intro k hk
      rw [← h.entries] at hk
      obtain ⟨e, he, hek⟩ := List.mem_filterMap.mp hk
      have hown := h.own e.1 k (Subscriber.recorder?_eq_some.mp hek ▸ he)
      refine bne_iff_ne.mpr fun hname => ?_
      rw [Catalogue.get?, hname] at hr
      rw [List.getElem?_map, show w.recorders.items[k]? = none from hr] at hown
      exact absurd hown nofun
    rw [List.filter_eq_self.mpr hall]
    exact h
  | some r =>
    obtain ⟨j, hname, hj⟩ := Option.bind_eq_some_iff.mp hr
    have hsub : (w.recorders.items.map Recorder.subscription)[j]? = some r.subscription := by
      rw [List.getElem?_map, show w.recorders.items[j]? = some r from hj]
      rfl
    refine ⟨?_, fun id k hk => h.own id k (List.mem_filter.mp hk).1, h.ordered⟩
    simp only [← h.entries, subscribedRecorders, Registry.unsubscribe, List.filterMap_filter,
      List.filter_filterMap]
    refine List.filterMap_congr fun e he => ?_
    obtain ⟨id, s⟩ := e
    cases s with
    | monitor n => simp [Subscriber.recorder?]
    | recorder k =>
      have hown := h.own id k he
      have hiff : id = r.subscription ↔ j = k := by
        refine ⟨fun hid => ?_, fun hjk => ?_⟩
        · rw [hid, ← hsub] at hown
          exact ((List.getElem?_inj (List.getElem?_eq_some_iff.mp hsub).1
            (h.ordered.imp Nat.ne_of_lt)).mp hown.symm)
        · rw [← hjk, hsub] at hown
          exact (Option.some.inj hown).symm
      by_cases hjk : j = k <;> simp [Subscriber.recorder?, hname, hiff, hjk, Option.filter]

theorem hold (h : w.Hears listening) (hw : w.Sound) (name : String) (g : Guard) :
    (w.hold name g).Hears listening := by
  unfold Watch.hold
  split
  · rename_i old _
    rw [release_guards]
    exact (h.release hw old).of_same rfl rfl
  · exact h.of_same rfl rfl

theorem drop (h : w.Hears listening) (hw : w.Sound) (name : String) : (w.drop name).Hears listening := by
  unfold Watch.drop
  split
  · rename_i g _
    rw [release_guards]
    exact (h.release hw g).of_same rfl rfl
  · exact h

/-- Recorders begin and cease to listen by no other actions than those that say so. -/
theorem acts (h : w.Hears listening) (hw : w.Sound) {action : Action} (hv : w.Acts action v)
    (hr : ∀ name, action ≠ .record name) (hu : ∀ name, action ≠ .unsubscribe name) :
    v.Hears listening := by
  cases hv with
  | enter _ _ => exact h.enter _
  | leave _ hs => exact h.leave hw hs
  | hold hn hs => exact (h.enter _).hold (hw.enter (hw.named _ _ hn) hs) _ _
  | drop guard => exact h.drop hw guard
  | emit e =>
    refine h.of_same ?_ (subscriptions_emit w e)
    exact foldl_deliver_same Watch.registry e (fun w s => by cases s <;> rfl) _ w
  | record name => exact absurd rfl (hr name)
  | unsubscribe _ => exact absurd rfl (hu _)
  | _ => exact h.of_same rfl rfl

theorem after (h : w.Hears listening) (hw : w.Sound) (move : Move) :
    (w.after move).Hears (w.listen listening move) := by
  cases move with
  | enter n => exact h.enter n
  | leave g => exact h.release hw g
  | act action =>
    have hacts := w.acts_act action
    cases action with
    | record name => exact h.addRecorder hw name
    | unsubscribe name => exact h.unsubscribe name
    | _ => exact h.acts hw hacts nofun nofun

theorem afterAll (h : w.Hears listening) (hw : w.Sound) {moves : List Move} (hm : w.AllowsAll moves) :
    (w.afterAll moves).Hears (w.listenAll listening moves) := by
  induction moves generalizing w listening with
  | nil => exact h
  | cons move moves ih => exact ih (h.after hw move) (hw.after hm.1) hm.2

end Hears

/-! ## Refusals -/

section Refusals

variable {w : Watch} {name : String} {n : Nat}

/-- Nothing begins a session of a monitor that is in one, and a program is not run in it. -/
theorem refused_of_tracing (hn : w.monitors.number? name = some n) (ht : w.isTracing n = true) :
    w.act (.start name) = (.refused .alreadyTracing, w) ∧
    (∀ guard, w.act (.hold guard name) = (.refused .alreadyTracing, w)) ∧
    ∀ program fails, perform w (.run name program fails) = .refused w .alreadyTracing := by
  have hopen : w.openSession n = .error .alreadyTracing := by
    rw [openSession_eq, if_neg (Option.isSome_iff_ne_none.mp ht)]
  refine ⟨?_, fun guard => ?_, fun program fails => ?_⟩
  · simp only [act, onName, hn, startMonitor, hopen]
  · simp only [act, onName, hn, holdSession, hopen]
  · simp only [perform, hn, hopen]

theorem refused_of_idle (hn : w.monitors.number? name = some n) (hs : w.isTracing n = false) :
    w.act (.stop name) = (.refused .notTracing, w) := by
  have hnone : w.sessionOf n = none := Option.isSome_eq_false_iff.mp hs |> Option.isNone_iff_eq_none.mp
  simp only [act, onName, hn, stopMonitor, closeSession, hnone]

end Refusals

/-! ## The registry at every point of a run -/

/-- The registry tells who is in a session, if the given numbers are all that were given so far and the
given recorders those that listen. -/
structure Tells (w : Watch) (issued : List SubscriptionId) (listening : List Nat) : Prop where
  tracing : ∀ n id, w.sessionOf n = some id ↔ w.entriesOf n = [(id, .monitor n)]
  idle : ∀ n, w.sessionOf n = none ↔ w.entriesOf n = []
  ordered : w.registry.ids.Pairwise (· < ·)
  once : issued.Pairwise (· < ·)
  issued : ∀ id ∈ w.registry.ids, id ∈ issued
  size : w.registry.size = w.monitors.items.countP Monitor.isTracing + listening.length

theorem tells_afterAll (files : FileStore) {moves : List Move} (hm : (start files).AllowsAll moves) :
    ((start files).afterAll moves).Tells ((start files).issuedAll moves)
      ((start files).listenAll [] moves) := by
  have hstart := Sound.start files
  have hsound := hstart.afterAll hm
  have hhears : ((start files).afterAll moves).Hears ((start files).listenAll [] moves) :=
    Hears.afterAll ⟨rfl, fun _ _ h => absurd h List.not_mem_nil, .nil⟩ hstart hm
  refine ⟨fun n id => ?_, fun n => ?_, hsound.ids_ordered, issuedAll_ordered hstart hm, ?_, ?_⟩
  · rw [hsound.entriesOf_eq]
    cases ((start files).afterAll moves).sessionOf n <;> simp
  · rw [hsound.entriesOf_eq]
    cases ((start files).afterAll moves).sessionOf n <;> simp
  · intro id hid
    exact (mem_issuedAll hid).resolve_left List.not_mem_nil
  · rw [size_eq_length_add, hsound.length_subscribedMonitors, hhears.entries]

/-- At every point of a run, within programs and after them, a monitor is in the session with a number
if and only if its one entry has the number, and idle if and only if it has none. All other entries are
of recorders that listen, and every number is greater than those given before it. What cannot be done
with a monitor in a session, or with an idle one, changes nothing. -/
theorem registry_tells_sessions (files : FileStore) (steps : List Step) :
    (∀ w ∈ Report.watchesAll (performAll (start files) steps),
      ∃ moves, moves <+: movesAll (start files) steps ∧ w = (start files).afterAll moves) ∧
    ∀ moves w, moves <+: movesAll (start files) steps → w = (start files).afterAll moves →
      w.Tells ((start files).issuedAll moves) ((start files).listenAll [] moves) ∧
      ∀ name n, w.monitors.number? name = some n →
        (w.isTracing n = true → w.act (.start name) = (.refused .alreadyTracing, w) ∧
          (∀ guard, w.act (.hold guard name) = (.refused .alreadyTracing, w)) ∧
          ∀ program fails, perform w (.run name program fails) = .refused w .alreadyTracing) ∧
        (w.isTracing n = false → w.act (.stop name) = (.refused .notTracing, w)) := by
  refine ⟨watches_performAll (start files) steps, ?_⟩
  rintro moves w ⟨rest, hrest⟩ rfl
  have hallowed := (Sound.start files).allows_movesAll steps
  rw [← hrest, allowsAll_append] at hallowed
  exact ⟨tells_afterAll files hallowed.1, fun name n hn => ⟨refused_of_tracing hn, refused_of_idle hn⟩⟩

end Watch

/-! ## A run -/

/-- While a program is run in a session of a monitor, the monitor and a recorder have the entries. -/
theorem Watch.registry_of_sample :
    ∃ moves w, moves <+: movesAll (start .empty)
        [.act (.create "m" .standard), .act (.record "r"), .run "m" [.act (.stop "m")] true] ∧
      w = (start .empty).afterAll moves ∧ w.Tells [1, 2] [0] ∧ w.registry.size = 2 ∧
      w.act (.start "m") = (.refused .alreadyTracing, w) := by
  have hp : [.act (.create "m" .standard), .act (.record "r"), .enter 0] <+: movesAll (start .empty)
      [.act (.create "m" .standard), .act (.record "r"), .run "m" [.act (.stop "m")] true] :=
    ⟨[.act (.stop "m"), .leave ⟨0, 2⟩], rfl⟩
  obtain ⟨htells, hrefused⟩ := (registry_tells_sessions .empty
    [.act (.create "m" .standard), .act (.record "r"), .run "m" [.act (.stop "m")] true]).2 _ _ hp rfl
  exact ⟨_, _, hp, rfl, htells, htells.size, ((hrefused "m" 0 rfl).1 rfl).1⟩

end TypeWatch
