import TypeWatch.Proofs.Basic
import TypeWatch.Proofs.Monitor.Action

/-! # Subscriptions of sessions

A monitor that is in a session has one entry in the registry, and one that is idle has none
(`Watch.Sound`). So an event is shown once to a monitor in a session and never to an idle one, and what
becomes of a monitor in a move is what its notes say (`item?_after`). -/
namespace TypeWatch
set_option autoImplicit false

/-! ## Catalogues -/

namespace Catalogue

variable {α : Type}

@[simp] theorem length_modify (c : Catalogue α) (n : Nat) (f : α → α) :
    (c.modify n f).items.length = c.items.length := by simp [modify]

theorem item?_modify (c : Catalogue α) (n k : Nat) (f : α → α) :
    (c.modify n f).item? k = if n = k then (c.item? k).map f else c.item? k := by
  simp only [item?, modify, List.getElem?_modify]
  by_cases h : n = k <;> simp [h]

@[simp] theorem length_add (c : Catalogue α) (name : String) (a : α) :
    (c.add name a).items.length = c.items.length + 1 := by simp [add]

theorem item?_add (c : Catalogue α) (name : String) (a : α) (k : Nat) :
    (c.add name a).item? k = if k = c.items.length then some a else c.item? k := by
  simp only [item?, add, List.getElem?_append]
  by_cases h : k < c.items.length
  · simp [h, Nat.ne_of_lt h]
  · by_cases hk : k = c.items.length
    · simp [hk]
    · rw [if_neg h, if_neg hk, List.getElem?_eq_none (by simp; omega), List.getElem?_eq_none (by omega)]

theorem number?_add (c : Catalogue α) (name : String) (a : α) (other : String) :
    (c.add name a).number? other =
      if other = name then some c.items.length else c.number? other := by
  rw [number?, number?, add, lookup_cons_if, lookup_filter_ne]
  by_cases h : other = name <;> simp [h]

theorem item?_isSome (c : Catalogue α) (n : Nat) : (c.item? n).isSome = true ↔ n < c.items.length := by
  simp [item?]

end Catalogue

/-! ## Registries -/

/-- In a list whose numbers increase, the number tells the entry. -/
theorem eq_of_ordered {α : Type} {l : List (Nat × α)} (h : l.Pairwise fun a b => a.1 < b.1)
    {a b : Nat × α} (ha : a ∈ l) (hb : b ∈ l) (hab : a.1 = b.1) : a = b := by
  induction h with
  | nil => simp at ha
  | cons hall _ ih =>
    rcases List.mem_cons.mp ha with ha | ha <;> rcases List.mem_cons.mp hb with hb | hb
    · rw [ha, hb]
    · have hlt := hall b hb
      rw [← ha, hab] at hlt
      exact absurd hlt (Nat.lt_irrefl _)
    · have hlt := hall a ha
      rw [← hb, hab] at hlt
      exact absurd hlt (Nat.lt_irrefl _)
    · exact ih ha hb

/-- A subscriber whose entries have one number has one entry. -/
theorem count_le_one {α : Type} [DecidableEq α] {l : List (Nat × α)}
    (h : l.Pairwise fun a b => a.1 < b.1) (s : α) (id : Nat) (hs : ∀ e ∈ l, e.2 = s → e.1 = id) :
    (l.map Prod.snd).count s ≤ 1 := by
  induction h with
  | nil => simp
  | @cons a l hall _ ih =>
    rw [List.map_cons, List.count_cons]
    by_cases ha : a.2 = s
    · -- a second entry would have a greater number
      have hno : s ∉ l.map Prod.snd := by
        intro hmem
        obtain ⟨b, hb, hbs⟩ := List.mem_map.mp hmem
        have hlt := hall b hb
        rw [hs a List.mem_cons_self ha, hs b (List.mem_cons_of_mem a hb) hbs] at hlt
        exact Nat.lt_irrefl _ hlt
      rw [List.count_eq_zero_of_not_mem hno]
      split <;> omega
    · have hb : (a.2 == s) = false := beq_eq_false_iff_ne.mpr ha
      have hle := ih fun e he => hs e (List.mem_cons_of_mem a he)
      simpa [hb] using hle

/-! ## Monitors -/

namespace Monitor

@[simp] theorem config_remember (m : Monitor) (file : String) (r : Except SourceError TypeTable) :
    (m.remember file r).config = m.config := by cases r <;> rfl

@[simp] theorem session_remember (m : Monitor) (file : String) (r : Except SourceError TypeTable) :
    (m.remember file r).session = m.session := by cases r <;> rfl

@[simp] theorem findings_remember (m : Monitor) (file : String) (r : Except SourceError TypeTable) :
    (m.remember file r).findings = m.findings := by cases r <;> rfl

@[simp] theorem config_learn (m : Monitor) (read : Reader) (file : String) :
    (m.learn read file).config = m.config := by unfold learn; split <;> simp

@[simp] theorem session_learn (m : Monitor) (read : Reader) (file : String) :
    (m.learn read file).session = m.session := by unfold learn; split <;> simp

@[simp] theorem findings_learn (m : Monitor) (read : Reader) (file : String) :
    (m.learn read file).findings = m.findings := by unfold learn; split <;> simp

@[simp] theorem config_observe (m : Monitor) (files : FileStore) (f : Frame) :
    (m.observe files f).config = m.config := by
  unfold observe check; split <;> (try split) <;> simp

@[simp] theorem session_observe (m : Monitor) (files : FileStore) (f : Frame) :
    (m.observe files f).session = m.session := by
  unfold observe check; split <;> (try split) <;> simp

/-- What becomes of a monitor by a note, if the session that may be begun has the given number. -/
def take (id : SubscriptionId) (m : Monitor) : Note → Monitor
  | .begun => m.begun id
  | .ended => m.ended
  | .shown files frame => m.observe files frame

def takeAll (id : SubscriptionId) (m : Monitor) (notes : List Note) : Monitor := notes.foldl (take id) m

theorem config_takeAll (m : Monitor) (id : SubscriptionId) (notes : List Note) :
    (m.takeAll id notes).config = m.config := by
  induction notes generalizing m with
  | nil => rfl
  | cons note notes ih =>
    refine (ih (m.take id note)).trans ?_
    cases note with
    | begun => rfl
    | ended => rfl
    | shown files frame => exact m.config_observe files frame

end Monitor

namespace Watch

/-! ## Sessions of the watch after a change -/

theorem sessionOf_of_length_le (w : Watch) (n : Nat) (h : w.monitors.items.length ≤ n) :
    w.sessionOf n = none := by
  have hn : w.monitors.item? n = none := by simpa [Catalogue.item?] using h
  simp [sessionOf, hn]

theorem sessionOf_enter (w : Watch) (n k : Nat) (hn : n < w.monitors.items.length) :
    (w.enter n).sessionOf k = if n = k then some w.registry.next else w.sessionOf k := by
  simp only [sessionOf, enter, Catalogue.item?_modify]
  by_cases h : n = k
  · subst h
    obtain ⟨m, hm⟩ := Option.isSome_iff_exists.mp ((w.monitors.item?_isSome n).mpr hn)
    simp [hm, Monitor.begun]
  · simp [h]

theorem sessionOf_leave (w : Watch) (n k : Nat) (id : SubscriptionId) :
    (w.leave n id).sessionOf k = if n = k then none else w.sessionOf k := by
  simp only [sessionOf, leave, Catalogue.item?_modify]
  by_cases h : n = k
  · subst h
    cases w.monitors.item? n <;> simp [Monitor.ended]
  · simp [h]

/-! ## The invariant -/

/-- The entries of the registry are those of the sessions and of recorders, under numbers that were never
given before, and a name stands for one monitor. -/
structure Sound (w : Watch) : Prop where
  named : ∀ name n, w.monitors.number? name = some n → n < w.monitors.items.length
  distinct : ∀ a b n, w.monitors.number? a = some n → w.monitors.number? b = some n → a = b
  ordered : w.registry.entries.Pairwise fun a b => a.1 < b.1
  below : ∀ e ∈ w.registry.entries, e.1 < w.registry.next
  entry_iff : ∀ n id, (id, Subscriber.monitor n) ∈ w.registry.entries ↔ w.sessionOf n = some id
  recorders : ∀ r ∈ w.recorders.items, r.subscription < w.registry.next ∧
    ∀ n, (r.subscription, Subscriber.monitor n) ∉ w.registry.entries
  guards : ∀ name g, w.guards.lookup name = some g → g.session < w.registry.next

namespace Sound

theorem start (files : FileStore) : (Watch.start files).Sound := by
  constructor <;> simp [Watch.start, Catalogue.empty, Registry.empty, Catalogue.number?, sessionOf,
    Catalogue.item?]

/-- A change that touches neither the registry nor the names, the sessions and the guards. -/
theorem of_same {w v : Watch} (h : w.Sound) (registry : v.registry = w.registry)
    (names : v.monitors.names = w.monitors.names)
    (length : v.monitors.items.length = w.monitors.items.length)
    (sessions : ∀ n, v.sessionOf n = w.sessionOf n)
    (recorders : v.recorders.items.map Recorder.subscription =
      w.recorders.items.map Recorder.subscription)
    (guards : v.guards = w.guards) : v.Sound where
  named := by simpa only [Catalogue.number?, names, length] using h.named
  distinct := by simpa only [Catalogue.number?, names] using h.distinct
  ordered := by rw [registry]; exact h.ordered
  below := by rw [registry]; exact h.below
  entry_iff n id := by rw [registry, sessions]; exact h.entry_iff n id
  recorders r hr := by
    have hmem : r.subscription ∈ w.recorders.items.map Recorder.subscription := by
      rw [← recorders]
      exact List.mem_map_of_mem hr
    obtain ⟨r', hr', hs⟩ := List.mem_map.mp hmem
    rw [registry, ← hs]
    exact h.recorders r' hr'
  guards name g hg := by
    rw [guards] at hg
    rw [registry]
    exact h.guards name g hg

/-- A number is given after those that were given before. -/
theorem ordered_subscribe {w : Watch} (h : w.Sound) (s : Subscriber) :
    (w.registry.subscribe s).entries.Pairwise fun a b => a.1 < b.1 := by
  refine List.pairwise_append.mpr ⟨h.ordered, List.pairwise_singleton _ _, ?_⟩
  intro a ha b hb
  rw [List.mem_singleton.mp hb]
  exact h.below a ha

theorem below_subscribe {w : Watch} (h : w.Sound) (s : Subscriber) :
    ∀ e ∈ (w.registry.subscribe s).entries, e.1 < (w.registry.subscribe s).next := by
  intro e he
  rcases List.mem_append.mp he with he | he
  · exact Nat.lt_succ_of_lt (h.below e he)
  · rw [List.mem_singleton.mp he]
    exact Nat.lt_succ_self _

/-- An idle monitor begins a session under a number that was never given before. -/
theorem enter {w : Watch} (h : w.Sound) {n : Nat} (hn : n < w.monitors.items.length)
    (hs : w.sessionOf n = none) : (w.enter n).Sound := by
  have hnew : ∀ k, (w.registry.next, Subscriber.monitor k) ∉ w.registry.entries :=
    fun k hk => Nat.lt_irrefl _ (h.below _ hk)
  refine ⟨?_, h.distinct, h.ordered_subscribe _, h.below_subscribe _, ?_, ?_, ?_⟩
  · intro name k hk
    simpa [Watch.enter] using h.named name k hk
  · intro k id
    rw [sessionOf_enter w n k hn]
    simp only [Watch.enter, Registry.subscribe, List.mem_append, List.mem_singleton, Prod.mk.injEq,
      Subscriber.monitor.injEq]
    by_cases hk : n = k
    · subst hk
      rw [h.entry_iff, hs, if_pos rfl]
      simp [eq_comm]
    · rw [h.entry_iff, if_neg hk]
      simp [Ne.symm hk]
  · intro r hr
    obtain ⟨hlt, hno⟩ := h.recorders r hr
    refine ⟨Nat.lt_succ_of_lt hlt, ?_⟩
    intro k hk
    rcases List.mem_append.mp hk with hk | hk
    · exact hno k hk
    · have he := List.mem_singleton.mp hk
      simp only [Prod.mk.injEq] at he
      exact Nat.ne_of_lt hlt he.1
  · intro name g hg
    exact Nat.lt_succ_of_lt (h.guards name g hg)

/-- The entry of a session that ends is taken out of the registry, and no other one is. -/
theorem leave {w : Watch} (h : w.Sound) {n : Nat} {id : SubscriptionId}
    (hs : w.sessionOf n = some id) : (w.leave n id).Sound := by
  have hentry := (h.entry_iff n id).mpr hs
  refine ⟨?_, h.distinct, h.ordered.filter _, ?_, ?_, ?_, h.guards⟩
  · intro name k hk
    simpa [Watch.leave] using h.named name k hk
  · intro e he
    exact h.below e (List.mem_filter.mp he).1
  · intro k i
    rw [sessionOf_leave]
    simp only [Watch.leave, Registry.unsubscribe, List.mem_filter, bne_iff_ne, ne_eq]
    by_cases hk : n = k
    · subst hk
      rw [h.entry_iff, hs, if_pos rfl]
      simp [eq_comm]
    · rw [h.entry_iff, if_neg hk]
      refine and_iff_left_of_imp fun hki hid => ?_
      subst hid
      -- two entries under one number would be one entry
      have hsame := eq_of_ordered h.ordered hentry ((h.entry_iff k i).mpr hki) rfl
      simp only [Prod.mk.injEq, Subscriber.monitor.injEq, true_and] at hsame
      exact hk hsame
  · intro r hr
    obtain ⟨hlt, hno⟩ := h.recorders r hr
    exact ⟨hlt, fun k hk => hno k (List.mem_filter.mp hk).1⟩

theorem release {w : Watch} (h : w.Sound) (g : Guard) : (w.release g).Sound := by
  unfold Watch.release
  split
  · rename_i hs
    exact h.leave hs
  · exact h

theorem hold {w : Watch} (h : w.Sound) (name : String) (g : Guard) (hg : g.session < w.registry.next) :
    (w.hold name g).Sound := by
  have hheld : ({ w with guards := (name, g) :: w.guards.filter fun x => x.1 != name } : Watch).Sound := by
    refine ⟨h.named, h.distinct, h.ordered, h.below, h.entry_iff, h.recorders, ?_⟩
    intro other g' hg'
    rw [lookup_cons_if, lookup_filter_ne] at hg'
    by_cases ho : other = name
    · rw [if_pos ho, Option.some.injEq] at hg'
      rw [← hg']
      exact hg
    · rw [if_neg ho, if_neg ho] at hg'
      exact h.guards other g' hg'
  unfold Watch.hold
  split
  · exact hheld.release _
  · exact hheld

theorem drop {w : Watch} (h : w.Sound) (name : String) : (w.drop name).Sound := by
  unfold Watch.drop
  split
  · refine Sound.release ?_ _
    refine ⟨h.named, h.distinct, h.ordered, h.below, h.entry_iff, h.recorders, ?_⟩
    intro other g' hg'
    rw [lookup_filter_ne] at hg'
    by_cases ho : other = name
    · rw [if_pos ho] at hg'
      simp at hg'
    · rw [if_neg ho] at hg'
      exact h.guards other g' hg'
  · exact h

theorem create {w : Watch} (h : w.Sound) (name : String) (c : Config) :
    ({ w with monitors := w.monitors.add name (Monitor.ofConfig c) } : Watch).Sound := by
  refine ⟨?_, ?_, h.ordered, h.below, ?_, h.recorders, h.guards⟩
  · intro other n hn
    rw [Catalogue.number?_add] at hn
    simp only [Catalogue.length_add]
    by_cases ho : other = name
    · rw [if_pos ho, Option.some.injEq] at hn
      omega
    · rw [if_neg ho] at hn
      exact Nat.lt_succ_of_lt (h.named other n hn)
  · intro a b n ha hb
    rw [Catalogue.number?_add] at ha hb
    by_cases hna : a = name <;> by_cases hnb : b = name
    · rw [hna, hnb]
    · rw [if_pos hna, Option.some.injEq] at ha
      rw [if_neg hnb] at hb
      exact absurd (h.named b n hb) (by omega)
    · rw [if_neg hna] at ha
      rw [if_pos hnb, Option.some.injEq] at hb
      exact absurd (h.named a n ha) (by omega)
    · rw [if_neg hna] at ha
      rw [if_neg hnb] at hb
      exact h.distinct a b n ha hb
  · intro n id
    rw [h.entry_iff]
    simp only [sessionOf, Catalogue.item?_add]
    by_cases hn : n = w.monitors.items.length
    · have hnone : w.monitors.item? n = none := by simp [Catalogue.item?, hn]
      simp [hn, Monitor.ofConfig]
      simp [← hn, hnone]
    · simp [hn]

theorem addRecorder {w : Watch} (h : w.Sound) (name : String) : (w.addRecorder name).Sound := by
  refine ⟨h.named, h.distinct, h.ordered_subscribe _, h.below_subscribe _, ?_, ?_, ?_⟩
  · intro n id
    rw [show (w.addRecorder name).sessionOf n = w.sessionOf n from rfl, ← h.entry_iff]
    simp [Watch.addRecorder, Registry.subscribe]
  · intro r hr
    simp only [Watch.addRecorder, Catalogue.add, List.mem_append, List.mem_singleton] at hr
    simp only [Watch.addRecorder, Registry.subscribe, List.mem_append, List.mem_singleton,
      Prod.mk.injEq, reduceCtorEq, and_false, or_false]
    rcases hr with hr | hr
    · obtain ⟨hlt, hno⟩ := h.recorders r hr
      exact ⟨Nat.lt_succ_of_lt hlt, hno⟩
    · subst hr
      exact ⟨Nat.lt_succ_self _, fun n hn => Nat.lt_irrefl _ (h.below _ hn)⟩
  · intro other g hg
    exact Nat.lt_succ_of_lt (h.guards other g hg)

/-- A recorder gives up its own entry only. -/
theorem unsubscribe {w : Watch} (h : w.Sound) (name : String) : (w.unsubscribe name).2.Sound := by
  unfold Watch.unsubscribe
  split
  · rename_i r hr
    have hmem : r ∈ w.recorders.items := by
      obtain ⟨n, -, hn⟩ := Option.bind_eq_some_iff.mp hr
      exact List.mem_of_getElem? hn
    refine ⟨h.named, h.distinct, h.ordered.filter _, ?_, ?_, ?_, h.guards⟩
    · intro e he
      exact h.below e (List.mem_filter.mp he).1
    · intro n id
      rw [show ({ w with registry := w.registry.unsubscribe r.subscription } : Watch).sessionOf n =
        w.sessionOf n from rfl, ← h.entry_iff]
      simp only [Registry.unsubscribe, List.mem_filter, bne_iff_ne, ne_eq, and_iff_left_iff_imp]
      intro hmon hid
      subst hid
      exact (h.recorders r hmem).2 n hmon
    · intro r' hr'
      obtain ⟨hlt, hno⟩ := h.recorders r' hr'
      exact ⟨hlt, fun n hn => hno n (List.mem_filter.mp hn).1⟩
  · exact h

end Sound

/-! ## Events -/

/-- What no delivery changes, an event does not change. -/
theorem foldl_deliver_same {β : Type} (f : Watch → β) (e : Event)
    (hf : ∀ w s, f (deliver e w s) = f w) (subs : List Subscriber) (w : Watch) :
    f (subs.foldl (deliver e) w) = f w := by
  induction subs generalizing w with
  | nil => rfl
  | cons s subs ih => rw [List.foldl_cons, ih, hf]

theorem files_deliver (e : Event) (w : Watch) (s : Subscriber) : (deliver e w s).files = w.files := by
  cases s <;> rfl

theorem item?_deliver (e : Event) (w : Watch) (s : Subscriber) (n : Nat) :
    (deliver e w s).monitors.item? n =
      if s = .monitor n then (w.monitors.item? n).map fun m => m.observe w.files e.frame
      else w.monitors.item? n := by
  cases s with
  | monitor k => simp only [deliver, Catalogue.item?_modify, Subscriber.monitor.injEq]
  | recorder k => rfl

theorem sessionOf_modify_observe (w : Watch) (k n : Nat) (frame : Frame) :
    ({ w with monitors := w.monitors.modify k fun m => m.observe w.files frame } : Watch).sessionOf n =
      w.sessionOf n := by
  simp only [sessionOf, Catalogue.item?_modify]
  by_cases h : k = n
  · cases w.monitors.item? n <;> simp [h]
  · simp [h]

theorem sessionOf_deliver (e : Event) (w : Watch) (s : Subscriber) (n : Nat) :
    (deliver e w s).sessionOf n = w.sessionOf n := by
  cases s with
  | monitor k => exact sessionOf_modify_observe w k n e.frame
  | recorder k => rfl

theorem sessionOf_emit (w : Watch) (e : Event) (n : Nat) : (w.emit e).sessionOf n = w.sessionOf n :=
  foldl_deliver_same (fun w => w.sessionOf n) e (fun w s => sessionOf_deliver e w s n) _ w

theorem files_emit (w : Watch) (e : Event) : (w.emit e).files = w.files :=
  foldl_deliver_same Watch.files e (files_deliver e) _ w

theorem number?_emit (w : Watch) (e : Event) (name : String) :
    (w.emit e).monitors.number? name = w.monitors.number? name :=
  foldl_deliver_same (fun w => w.monitors.number? name) e (fun w s => by cases s <;> rfl) _ w

theorem subscriptions_emit (w : Watch) (e : Event) :
    (w.emit e).recorders.items.map Recorder.subscription =
      w.recorders.items.map Recorder.subscription := by
  refine foldl_deliver_same (fun w => w.recorders.items.map Recorder.subscription) e (fun w s => ?_) _ w
  cases s with
  | monitor k => rfl
  | recorder k =>
    refine List.ext_getElem? fun i => ?_
    simp only [deliver, Catalogue.modify, List.getElem?_map, List.getElem?_modify]
    cases w.recorders.items[i]? with
    | none => rfl
    | some r => by_cases hk : k = i <;> simp [hk]

/-- A monitor that subscribed once is shown the frame of an event once, and no other one is. -/
theorem item?_foldl_deliver (e : Event) (n : Nat) (subs : List Subscriber) (w : Watch)
    (h : subs.count (.monitor n) ≤ 1) :
    (subs.foldl (deliver e) w).monitors.item? n =
      if Subscriber.monitor n ∈ subs then
        (w.monitors.item? n).map fun m => m.observe w.files e.frame
      else w.monitors.item? n := by
  induction subs generalizing w with
  | nil => simp
  | cons s subs ih =>
    rw [List.count_cons] at h
    rw [List.foldl_cons, ih _ (by omega), item?_deliver, files_deliver]
    by_cases hs : s = .monitor n
    · have hno : Subscriber.monitor n ∉ subs := by
        rw [hs] at h
        simp only [beq_self_eq_true, if_true] at h
        exact List.count_eq_zero.mp (by omega)
      simp [hs, hno]
    · simp [hs, Ne.symm hs]

/-- An event reaches the monitors that are in a session. -/
theorem item?_emit {w : Watch} (h : w.Sound) (e : Event) (n : Nat) :
    (w.emit e).monitors.item? n =
      if w.isTracing n then (w.monitors.item? n).map fun m => m.observe w.files e.frame
      else w.monitors.item? n := by
  have hmem : Subscriber.monitor n ∈ w.registry.subscribers ↔ w.isTracing n = true := by
    rw [isTracing, Option.isSome_iff_exists]
    simp only [Registry.subscribers, List.mem_map]
    constructor
    · rintro ⟨⟨id, s⟩, hin, rfl⟩
      exact ⟨id, (h.entry_iff n id).mp hin⟩
    · rintro ⟨id, hid⟩
      exact ⟨_, (h.entry_iff n id).mpr hid, rfl⟩
  have hone : w.registry.subscribers.count (.monitor n) ≤ 1 := by
    cases hs : w.sessionOf n with
    | none =>
      have hno : Subscriber.monitor n ∉ w.registry.subscribers := by simp [hmem, isTracing, hs]
      rw [List.count_eq_zero_of_not_mem hno]
      exact Nat.zero_le 1
    | some id =>
      refine count_le_one h.ordered _ id ?_
      intro e he hen
      have hid := (h.entry_iff n e.1).mp (by rw [← hen]; exact he)
      rw [hs, Option.some.injEq] at hid
      exact hid.symm
  rw [emit, item?_foldl_deliver e n _ w hone]
  by_cases ht : w.isTracing n = true <;> simp [hmem, ht]

theorem Sound.emit {w : Watch} (h : w.Sound) (e : Event) : (w.emit e).Sound := by
  have hsame {β : Type} (f : Watch → β) (hf : ∀ w s, f (deliver e w s) = f w) : f (w.emit e) = f w :=
    foldl_deliver_same f e hf _ w
  refine h.of_same ?_ ?_ ?_ (sessionOf_emit w e) (subscriptions_emit w e) ?_
  · exact hsame (fun w => w.registry) fun w s => by cases s <;> rfl
  · exact hsame (fun w => w.monitors.names) fun w s => by cases s <;> rfl
  · exact hsame (fun w => w.monitors.items.length) fun w s => by cases s <;> simp [deliver]
  · exact hsame (fun w => w.guards) fun w s => by cases s <;> rfl

/-- A frame that a monitor is to check is shown to it, in a session or not. -/
theorem Sound.inspect {w : Watch} (h : w.Sound) (n : Nat) (frame : Frame) :
    ({ w with monitors := w.monitors.modify n fun m => m.observe w.files frame } : Watch).Sound :=
  h.of_same rfl rfl (by simp) (fun k => sessionOf_modify_observe w n k frame) rfl rfl

/-! ## Moves -/

/-- Sessions are begun of monitors that are there and idle. -/
def Allows (w : Watch) : Move → Prop
  | .enter n => n < w.monitors.items.length ∧ w.sessionOf n = none
  | _ => True

def AllowsAll (w : Watch) : List Move → Prop
  | [] => True
  | move :: moves => w.Allows move ∧ (w.after move).AllowsAll moves

theorem allowsAll_append (w : Watch) (a b : List Move) :
    w.AllowsAll (a ++ b) ↔ w.AllowsAll a ∧ (w.afterAll a).AllowsAll b := by
  induction a generalizing w with
  | nil => simp [AllowsAll]
  | cons move a ih => simp only [List.cons_append, AllowsAll, ih, afterAll_cons, and_assoc]

theorem Sound.act {w : Watch} (h : w.Sound) (action : Action) : (w.act action).2.Sound := by
  have hfiles (files : FileStore) : ({ w with files := files } : Watch).Sound :=
    h.of_same rfl rfl rfl (fun _ => rfl) rfl rfl
  have hacts := w.acts_act action
  generalize (w.act action).2 = v at hacts ⊢
  cases hacts with
  | create name c => exact h.create name c
  | enter hn hs => exact h.enter (h.named _ _ hn) hs
  | leave _ hs => exact h.leave hs
  | hold hn hs => exact (h.enter (h.named _ _ hn) hs).hold _ _ (Nat.lt_succ_self _)
  | drop guard => exact h.drop guard
  | emit e => exact h.emit e
  | inspect frame _ => exact h.inspect _ frame
  | record name => exact h.addRecorder name
  | @unsubscribe name r hr =>
    have hsound := h.unsubscribe name
    rw [Watch.unsubscribe, hr] at hsound
    exact hsound
  | write path content => exact hfiles _
  | delete _ => exact hfiles _
  | makeDirectory _ => exact hfiles _
  | nothing _ => exact h

theorem Sound.after {w : Watch} (h : w.Sound) {move : Move} (hm : w.Allows move) :
    (w.after move).Sound := by
  cases move with
  | act action => exact h.act action
  | enter n => exact h.enter hm.1 hm.2
  | leave g => exact h.release g

theorem Sound.afterAll {w : Watch} (h : w.Sound) {moves : List Move} (hm : w.AllowsAll moves) :
    (w.afterAll moves).Sound := by
  induction moves generalizing w with
  | nil => exact h
  | cons move moves ih => exact ih (h.after hm.1) hm.2

mutual

theorem Sound.allows_moves {w : Watch} (h : w.Sound) : ∀ step : Step, w.AllowsAll (moves w step)
  | .act action => ⟨trivial, trivial⟩
  | .run name program fails => by
    rw [moves]
    cases hn : w.monitors.number? name with
    | none => trivial
    | some n =>
      by_cases hs : w.sessionOf n = none
      · have hlt := h.named name n hn
        have hprogram := (h.enter hlt hs).allows_movesAll program
        simp only [openSession_eq, hs, if_true, List.cons_append, AllowsAll, allowsAll_append]
        exact ⟨⟨hlt, hs⟩, hprogram, trivial, trivial⟩
      · simp only [openSession_eq, hs, if_false]
        trivial

theorem Sound.allows_movesAll {w : Watch} (h : w.Sound) :
    ∀ steps : List Step, w.AllowsAll (movesAll w steps)
  | [] => trivial
  | step :: steps => by
    have hstep := h.allows_moves step
    have hafter : (perform w step).after.Sound := by
      rw [← afterAll_moves]
      exact h.afterAll hstep
    rw [movesAll, allowsAll_append, afterAll_moves]
    exact ⟨hstep, hafter.allows_movesAll steps⟩

end

end Watch
end TypeWatch
