import TypeWatch.Proofs.Token.Order
import TypeWatch.Reading.Cursor

/-! # Places that readers reach

A reader that succeeds leaves a later place of the same stream (`Reaches`), and what it read begins with a
token that was ahead and is behind then (`Reads`). For each reader there is one lemma that says so; the
lemmas are put together with `gives_bind`. -/
namespace TypeWatch.Reading
set_option autoImplicit false

/-! ## Places -/

namespace Cursor

/-- A place in a stream of tokens in their order. -/
structure Sound (c : Cursor) : Prop where
  ordered : c.rest.Pairwise Token.Precedes
  proper : ∀ t ∈ c.rest, t.Proper
  behind : ∀ t ∈ c.rest, c.lastEnd ≤ t.span.start

/-- Whether a token that is no layout begins ahead at a position. -/
def Ahead (c : Cursor) (p : Position) : Prop := ∃ t ∈ c.rest, t.kind.isLayout = false ∧ t.span.start = p

/-- Whether a line begins: no token ahead, except for layout, is on the line of the last one behind. -/
def AtLineStart (c : Cursor) : Prop :=
  ∀ t ∈ c.rest, t.kind.isLayout = false → c.lastEnd.line < t.span.start.line

theorem Sound.le_of_ahead {c : Cursor} (h : c.Sound) {p : Position} (hp : c.Ahead p) : c.lastEnd ≤ p := by
  obtain ⟨t, ht, _, rfl⟩ := hp
  exact h.behind t ht

theorem AtLineStart.lt_of_ahead {c : Cursor} (h : c.AtLineStart) {p : Position} (hp : c.Ahead p) :
    c.lastEnd.line < p.line := by
  obtain ⟨t, ht, hno, rfl⟩ := hp
  exact h t ht hno

end Cursor

/-- A place that is reached from another one by reading on. -/
structure Reaches (c d : Cursor) : Prop where
  suffix : d.rest <:+ c.rest
  last : d.last = c.last
  sound : c.Sound → d.Sound
  le : c.Sound → c.lastEnd ≤ d.lastEnd
  stop : d.lastEnd = c.lastEnd ∨ ∃ t ∈ c.rest, t.kind.isLayout = false ∧ d.lastEnd = t.span.stop

/-- A place that is reached by reading something which begins at a position. -/
structure Reads (c : Cursor) (p : Position) (d : Cursor) : Prop where
  reaches : Reaches c d
  ahead : c.Ahead p
  behind : c.Sound → p < d.lastEnd

/-- A place that is reached by reading one token. -/
structure Passes (c : Cursor) (t : Token) (d : Cursor) : Prop where
  rest : c.rest = t :: d.rest
  last : d.last = c.last
  lastEnd : d.lastEnd = if t.kind.isLayout then c.lastEnd else t.span.stop

theorem Passes.lastEnd_eq {c d : Cursor} {t : Token} (h : Passes c t d) (hno : t.kind.isLayout = false) :
    t.span.stop = d.lastEnd := by
  rw [h.lastEnd, hno]
  rfl

namespace Reaches

variable {c d e : Cursor}

theorem refl (c : Cursor) : Reaches c c :=
  ⟨List.suffix_rfl, rfl, id, fun _ => c.lastEnd.le_refl, Or.inl rfl⟩

theorem trans (h : Reaches c d) (h' : Reaches d e) : Reaches c e where
  suffix := h'.suffix.trans h.suffix
  last := h'.last.trans h.last
  sound hc := h'.sound (h.sound hc)
  le hc := Position.le_trans (h.le hc) (h'.le (h.sound hc))
  stop := by
    rcases h'.stop with heq | ⟨t, ht, hno, hstop⟩
    · rw [heq]
      exact h.stop
    · exact Or.inr ⟨t, h.suffix.subset ht, hno, hstop⟩

theorem ahead (h : Reaches c d) {p : Position} (hp : d.Ahead p) : c.Ahead p := by
  obtain ⟨t, ht, hno, hp⟩ := hp
  exact ⟨t, h.suffix.subset ht, hno, hp⟩

theorem reads (h : Reaches c d) {p : Position} (h' : Reads d p e) : Reads c p e :=
  ⟨h.trans h'.reaches, h.ahead h'.ahead, fun hc => h'.behind (h.sound hc)⟩

end Reaches

theorem Reads.reaching {c d e : Cursor} {p : Position} (h : Reads c p d) (h' : Reaches d e) : Reads c p e :=
  ⟨h.reaches.trans h', h.ahead,
    fun hc => Position.lt_of_lt_of_le (h.behind hc) (h'.le (h.reaches.sound hc))⟩

/-- A place that is reached by reading several things, which begin at the given positions. -/
structure ReadsAll (c : Cursor) (ps : List Position) (d : Cursor) : Prop where
  reaches : Reaches c d
  ahead : ∀ p ∈ ps, c.Ahead p
  behind : c.Sound → ∀ p ∈ ps, p < d.lastEnd
  ordered : c.Sound → ps.Pairwise (· < ·)

namespace ReadsAll

variable {c d e : Cursor} {ps qs : List Position}

theorem nil (h : Reaches c d) : ReadsAll c [] d := ⟨h, nofun, fun _ => nofun, fun _ => .nil⟩

theorem append (h : ReadsAll c ps d) (h' : ReadsAll d qs e) : ReadsAll c (ps ++ qs) e where
  reaches := h.reaches.trans h'.reaches
  ahead p hp := by
    rcases List.mem_append.mp hp with hp | hp
    · exact h.ahead p hp
    · exact h.reaches.ahead (h'.ahead p hp)
  behind hc p hp := by
    have hd := h.reaches.sound hc
    rcases List.mem_append.mp hp with hp | hp
    · exact Position.lt_of_lt_of_le (h.behind hc p hp) (h'.reaches.le hd)
    · exact h'.behind hd p hp
  ordered hc := by
    have hd := h.reaches.sound hc
    refine List.pairwise_append.mpr ⟨h.ordered hc, h'.ordered hd, fun p hp q hq => ?_⟩
    exact Position.lt_of_lt_of_le (h.behind hc p hp) (hd.le_of_ahead (h'.ahead q hq))

end ReadsAll

theorem Reads.all {c d : Cursor} {p : Position} (h : Reads c p d) : ReadsAll c [p] d where
  reaches := h.reaches
  ahead q hq := by
    obtain rfl := List.mem_singleton.mp hq
    exact h.ahead
  behind hc q hq := by
    obtain rfl := List.mem_singleton.mp hq
    exact h.behind hc
  ordered _ := List.pairwise_singleton _ _

namespace Passes

variable {c d : Cursor} {t : Token}

theorem position_eq (h : Passes c t d) : c.position = t.span.start := by
  rw [Cursor.position, Cursor.token, h.rest]
  rfl

theorem mem (h : Passes c t d) : t ∈ c.rest := by
  rw [h.rest]
  exact List.mem_cons_self

theorem reaches (h : Passes c t d) : Reaches c d where
  suffix := ⟨[t], h.rest.symm⟩
  last := h.last
  sound hc := by
    have hordered := hc.ordered
    rw [h.rest, List.pairwise_cons] at hordered
    refine ⟨hordered.2, fun u hu => hc.proper u ?_, fun u hu => ?_⟩
    · rw [h.rest]
      exact List.mem_cons_of_mem t hu
    · rw [h.lastEnd]
      split
      · refine hc.behind u ?_
        rw [h.rest]
        exact List.mem_cons_of_mem t hu
      · exact (hordered.1 u hu).1
  le hc := by
    rw [h.lastEnd]
    split
    · exact c.lastEnd.le_refl
    · exact Position.le_trans (hc.behind t h.mem) (hc.proper t h.mem).le
  stop := by
    rw [h.lastEnd]
    by_cases hlayout : t.kind.isLayout = true
    · exact Or.inl (if_pos hlayout)
    · have hno : t.kind.isLayout = false := by simpa using hlayout
      exact Or.inr ⟨t, h.mem, hno, if_neg hlayout⟩

theorem reads (h : Passes c t d) (hno : t.kind.isLayout = false) : Reads c t.span.start d where
  reaches := h.reaches
  ahead := ⟨t, h.mem, hno, rfl⟩
  behind hc := by
    rw [h.lastEnd, hno]
    exact (hc.proper t h.mem).lt hno

/-- After a line end a line begins. -/
theorem atLineStart (h : Passes c t d) (hc : c.Sound) (hnewline : t.kind = .newline) : d.AtLineStart := by
  intro u hu hno
  have hordered := hc.ordered
  rw [h.rest, List.pairwise_cons] at hordered
  have hlt := (hordered.1 u hu).2 hnewline hno
  have hle := (hc.behind t h.mem).2
  have hstop := (hc.proper t h.mem).le.2
  rw [h.lastEnd, hnewline]
  exact Nat.lt_of_le_of_lt (Nat.le_trans hle hstop) hlt

/-- Layout leaves the line where it begins. -/
theorem atLineStart_of_layout (h : Passes c t d) (hlayout : t.kind.isLayout = true) (hc : c.AtLineStart) :
    d.AtLineStart := by
  intro u hu hno
  rw [h.lastEnd, if_pos hlayout]
  refine hc u ?_ hno
  rw [h.rest]
  exact List.mem_cons_of_mem t hu

end Passes

/-! ## What readings give -/

/-- What holds of all that a reading may give. -/
def Gives {β : Type} (r : Except SyntaxError β) (P : β → Prop) : Prop := ∀ b, r = .ok b → P b

variable {α β : Type} {c d : Cursor}

def Read.Gives (r : Read α c) (P : α → Cursor → Prop) : Prop := Reading.Gives r fun a => P a.value a.next

def MayRead.Gives (r : MayRead α c) (P : α → Cursor → Prop) : Prop :=
  Reading.Gives r fun a => P a.value a.next

theorem gives_ok {b : β} {P : β → Prop} (h : P b) : Gives (.ok b) P := by
  intro b' hb
  obtain rfl := Except.ok.inj hb
  exact h

theorem gives_error {P : β → Prop} (e : SyntaxError) : Gives (.error e) P := nofun

theorem gives_fail {P : β → Prop} (c : Cursor) (fault : Fault) : Gives (c.fail fault) P := nofun

theorem gives_unexpected {P : β → Prop} (c : Cursor) : Gives c.unexpected P := nofun

theorem gives_bind_check {r : Except SyntaxError α} {f : α → Except SyntaxError β} {P : β → Prop}
    (hf : ∀ a, Gives (f a) P) : Gives (r >>= f) P := by
  intro b hb
  obtain ⟨a, _, ha⟩ := exists_of_bind_ok hb
  exact hf a b ha

namespace Read

theorem gives_bind {r : Read α c} {f : Advanced α c → Except SyntaxError β} {Q : α → Cursor → Prop}
    {P : β → Prop} (hr : r.Gives Q) (hf : ∀ x d h, Q x d → Reading.Gives (f ⟨x, d, h⟩) P) :
    Reading.Gives (r >>= f) P := by
  cases r with
  | error e => exact gives_error e
  | ok a => exact hf a.value a.next a.lt (hr a rfl)

theorem gives_map {r : Read α c} {f : Advanced α c → β} {Q : α → Cursor → Prop} {P : β → Prop}
    (hr : r.Gives Q) (hf : ∀ a, Q a.value a.next → P (f a)) : Reading.Gives (r.map f) P := by
  cases r with
  | error e => exact gives_error e
  | ok a => exact gives_ok (hf a (hr a rfl))

theorem gives_imp {r : Read α c} {P : α → Cursor → Prop} {Q : Advanced α c → Prop} (hr : r.Gives P)
    (hpq : ∀ a, P a.value a.next → Q a) : Reading.Gives r Q := fun a ha => hpq a (hr a ha)

theorem gives_since {r : Read α d} {P : α → Cursor → Prop} (hr : r.Gives P) (h : d.size < c.size) :
    (r.since h).Gives P := gives_map hr fun _ ha => ha

theorem gives_from {r : Read α d} {P : α → Cursor → Prop} (hr : r.Gives P) (h : d.size ≤ c.size) :
    (r.from h).Gives P := gives_map hr fun _ ha => ha

theorem gives_moved {r : Read α c} {P : α → Cursor → Prop} (hr : r.Gives P) : r.moved.Gives P :=
  gives_map hr fun _ ha => ha

end Read

namespace MayRead

theorem gives_imp {r : MayRead α c} {P : α → Cursor → Prop} {Q : Moved α c → Prop} (hr : r.Gives P)
    (hpq : ∀ a, P a.value a.next → Q a) : Reading.Gives r Q := fun a ha => hpq a (hr a ha)

theorem gives_bind {r : MayRead α c} {f : Moved α c → Except SyntaxError β} {Q : α → Cursor → Prop}
    {P : β → Prop} (hr : r.Gives Q) (hf : ∀ x d h, Q x d → Reading.Gives (f ⟨x, d, h⟩) P) :
    Reading.Gives (r >>= f) P := by
  cases r with
  | error e => exact gives_error e
  | ok a => exact hf a.value a.next a.le (hr a rfl)

theorem gives_map {r : MayRead α c} {f : Moved α c → β} {Q : α → Cursor → Prop} {P : β → Prop}
    (hr : r.Gives Q) (hf : ∀ a, Q a.value a.next → P (f a)) : Reading.Gives (r.map f) P := by
  cases r with
  | error e => exact gives_error e
  | ok a => exact gives_ok (hf a (hr a rfl))

theorem gives_since {r : MayRead α d} {P : α → Cursor → Prop} (hr : r.Gives P) (h : d.size < c.size) :
    (r.since h).Gives P := gives_map hr fun _ ha => ha

end MayRead

/-! ## Tokens -/

namespace Cursor

theorem next?_passes {a : Advanced Token c} (h : c.next? = some a) : Passes c a.value a.next := by
  unfold next? at h
  split at h
  · exact absurd h nofun
  · rename_i t rest hrest
    obtain rfl := Option.some.inj h
    exact ⟨hrest, rfl, rfl⟩

theorem accept?_passes {kind : TokenKind} {a : Advanced Token c} (h : c.accept? kind = some a) :
    a.value.kind = kind ∧ Passes c a.value a.next := by
  unfold accept? at h
  split at h
  · rename_i b hb
    split at h
    · rename_i hkind
      obtain rfl := Option.some.inj h
      exact ⟨hkind, next?_passes hb⟩
    · exact absurd h nofun
  · exact absurd h nofun

theorem accept?_since_passes {kind : TokenKind} {hlt : d.size < c.size} {a : Advanced Token c}
    (h : (d.accept? kind).since hlt = some a) : a.value.kind = kind ∧ Passes d a.value a.next := by
  obtain ⟨b, hb, rfl⟩ := Option.map_eq_some_iff.mp h
  exact accept?_passes hb

theorem demand_gives (c : Cursor) (kind : TokenKind) (fault : Fault) :
    (c.demand kind fault).Gives fun t d => t.kind = kind ∧ Passes c t d := by
  unfold demand
  split
  · rename_i a ha
    exact gives_ok (accept?_passes ha)
  · exact gives_fail c fault

theorem expect_gives (c : Cursor) (kind : TokenKind) :
    (c.expect kind).Gives fun t d => t.kind = kind ∧ Passes c t d := c.demand_gives kind _

theorem expectName_reads (c : Cursor) : c.expectName.Gives fun _ d => Reads c c.position d := by
  refine Read.gives_bind (c.expect_gives .name) ?_
  intro t d h ht
  refine gives_ok ?_
  rw [ht.2.position_eq]
  exact ht.2.reads (by rw [ht.1]; rfl)

theorem expectName_gives (c : Cursor) : c.expectName.Gives fun _ d => Reaches c d :=
  fun a ha => (c.expectName_reads a ha).reaches

end Cursor

/-! ## Next tokens -/

theorem next?_eq_some {c : Cursor} {t : Token} {ts : List Token} (h : c.rest = t :: ts) :
    ∃ hlt, c.next? = some ⟨t, c.past t ts, hlt⟩ := by
  obtain ⟨rest, last, lastEnd⟩ := c
  obtain rfl : rest = t :: ts := h
  exact ⟨_, rfl⟩

theorem next?_eq_none {c : Cursor} (h : c.rest = []) : c.next? = none := by
  obtain ⟨rest, last, lastEnd⟩ := c
  obtain rfl : rest = [] := h
  rfl

theorem kind_of_next? {c : Cursor} {a : Advanced Token c} (h : c.next? = some a) : c.kind = a.value.kind := by
  rw [Cursor.kind, Cursor.token, (Cursor.next?_passes h).rest]
  rfl

theorem accept?_of_next? {c : Cursor} {a : Advanced Token c} (h : c.next? = some a) (kind : TokenKind) :
    c.accept? kind = if a.value.kind = kind then some a else none := by
  rw [Cursor.accept?, h]

theorem accept?_of_kind_ne {c : Cursor} {kind : TokenKind} (h : c.kind ≠ kind) : c.accept? kind = none := by
  cases hnext : c.next? with
  | none => rw [Cursor.accept?, hnext]
  | some a => exact (accept?_of_next? hnext kind).trans (if_neg (kind_of_next? hnext ▸ h))

end TypeWatch.Reading
