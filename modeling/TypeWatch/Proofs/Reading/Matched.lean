import TypeWatch.Proofs.Reading.Cursor

/-! # Readings that compare

A reading matches another one if the other one succeeds wherever it does, with a result that compares. Readers are
put together from their steps, and so is what says that they match. -/
namespace TypeWatch.Reading
set_option autoImplicit false

/-! ## Readings -/

/-- Whether a second reading succeeds where the first one does, with a result that compares. -/
def Matches {α β : Type} (r : Except SyntaxError α) (r' : Except SyntaxError β) (R : α → β → Prop) : Prop :=
  ∀ a, r = .ok a → ∃ b, r' = .ok b ∧ R a b

section Matches

variable {α β γ η : Type} {c d : Cursor}

def Read.Matches (r : Read α c) (r' : Read β d) (R : α → Cursor → β → Cursor → Prop) : Prop :=
  Reading.Matches r r' fun a b => R a.value a.next b.value b.next

def MayRead.Matches (r : MayRead α c) (r' : MayRead β d) (R : α → Cursor → β → Cursor → Prop) : Prop :=
  Reading.Matches r r' fun a b => R a.value a.next b.value b.next

theorem matches_ok {a : α} {b : β} {R : α → β → Prop} (h : R a b) : Matches (.ok a) (.ok b) R := by
  intro a' ha
  obtain rfl := Except.ok.inj ha
  exact ⟨b, rfl, h⟩

theorem matches_error (e : SyntaxError) (r' : Except SyntaxError β) (R : α → β → Prop) :
    Matches (.error e) r' R := nofun

theorem matches_bind_check {r : Except SyntaxError α} {r' : Except SyntaxError β} {f : α → Except SyntaxError γ}
    {f' : β → Except SyntaxError η} {Q : α → β → Prop} {R : γ → η → Prop} (hr : Matches r r' Q)
    (hf : ∀ a b, Q a b → Matches (f a) (f' b) R) : Matches (r >>= f) (r' >>= f') R := by
  intro y hy
  obtain ⟨a, ha, hy⟩ := exists_of_bind_ok hy
  obtain ⟨b, hb, hab⟩ := hr a ha
  obtain ⟨z, hz, hyz⟩ := hf a b hab y hy
  refine ⟨z, ?_, hyz⟩
  rw [hb]
  exact hz

theorem matches_map {r : Except SyntaxError α} {r' : Except SyntaxError β} {f : α → γ} {f' : β → η}
    {Q : α → β → Prop} {R : γ → η → Prop} (hr : Matches r r' Q) (hf : ∀ a b, Q a b → R (f a) (f' b)) :
    Matches (r.map f) (r'.map f') R := by
  cases r with
  | error e => exact nofun
  | ok a =>
    obtain ⟨b, hb, hab⟩ := hr a rfl
    rw [hb]
    exact matches_ok (hf a b hab)

namespace Read

variable {r : Read α c} {r' : Read β d} {Q R : α → Cursor → β → Cursor → Prop}

theorem matches_bind {f : Advanced α c → Except SyntaxError γ} {f' : Advanced β d → Except SyntaxError η}
    {P : γ → η → Prop} (hr : r.Matches r' Q)
    (hf : ∀ x c1 h y d1 h', Q x c1 y d1 → Reading.Matches (f ⟨x, c1, h⟩) (f' ⟨y, d1, h'⟩) P) :
    Reading.Matches (r >>= f) (r' >>= f') P :=
  matches_bind_check hr fun a b hab => hf a.value a.next a.lt b.value b.next b.lt hab

theorem matches_imp (hr : r.Matches r' Q) (hqr : ∀ x c1 y d1, Q x c1 y d1 → R x c1 y d1) : r.Matches r' R := by
  intro a ha
  obtain ⟨b, hb, hab⟩ := hr a ha
  exact ⟨b, hb, hqr _ _ _ _ hab⟩

theorem matches_since {c' d' : Cursor} (hr : r.Matches r' Q) (h : c.size < c'.size) (h' : d.size < d'.size) :
    (r.since h).Matches (r'.since h') Q := matches_map hr fun _ _ hab => hab

theorem matches_from {c' d' : Cursor} (hr : r.Matches r' Q) (h : c.size ≤ c'.size) (h' : d.size ≤ d'.size) :
    (r.from h).Matches (r'.from h') Q := matches_map hr fun _ _ hab => hab

theorem matches_moved (hr : r.Matches r' Q) : r.moved.Matches r'.moved Q := matches_map hr fun _ _ hab => hab

end Read

namespace MayRead

variable {r : MayRead α c} {r' : MayRead β d} {Q R : α → Cursor → β → Cursor → Prop}

theorem matches_bind {f : Moved α c → Except SyntaxError γ} {f' : Moved β d → Except SyntaxError η}
    {P : γ → η → Prop} (hr : r.Matches r' Q)
    (hf : ∀ x c1 h y d1 h', Q x c1 y d1 → Reading.Matches (f ⟨x, c1, h⟩) (f' ⟨y, d1, h'⟩) P) :
    Reading.Matches (r >>= f) (r' >>= f') P :=
  matches_bind_check hr fun a b hab => hf a.value a.next a.le b.value b.next b.le hab

theorem matches_since {c' d' : Cursor} (hr : r.Matches r' Q) (h : c.size < c'.size) (h' : d.size < d'.size) :
    (r.since h).Matches (r'.since h') Q := matches_map hr fun _ _ hab => hab

end MayRead

end Matches

/-! ## Steps that succeed -/

theorem exists_of_map_ok {α β : Type} {r : Except SyntaxError α} {f : α → β} {b : β} (h : r.map f = .ok b) :
    ∃ a, r = .ok a ∧ f a = b := by
  cases r with
  | error e => cases h
  | ok a => exact ⟨a, rfl, Except.ok.inj h⟩

theorem bind_of_ok {α β : Type} {r : Except SyntaxError α} {f : α → Except SyntaxError β} {a : α}
    {y : Except SyntaxError β} (hr : r = .ok a) (hf : f a = y) : (r >>= f) = y := by
  rw [hr]
  exact hf

section Since

variable {α : Type} {c d e : Cursor} {x : α} {h : d.size < c.size} {h1 : e.size < c.size}

theorem Read.exists_of_since {r : Read α d} (ha : r.since h = .ok ⟨x, e, h1⟩) : ∃ h2, r = .ok ⟨x, e, h2⟩ := by
  obtain ⟨b, rfl, hb⟩ := exists_of_map_ok ha
  obtain ⟨rfl, rfl⟩ := Advanced.mk.inj hb
  exact ⟨b.lt, rfl⟩

theorem MayRead.exists_of_since {r : MayRead α d} (ha : r.since h = .ok ⟨x, e, h1⟩) : ∃ h2, r = .ok ⟨x, e, h2⟩ := by
  obtain ⟨b, rfl, hb⟩ := exists_of_map_ok ha
  obtain ⟨rfl, rfl⟩ := Advanced.mk.inj hb
  exact ⟨b.le, rfl⟩

theorem Read.since_of_ok {r : Read α d} {b : Advanced α d} (hr : r = .ok b) (h : d.size < c.size) :
    r.since h = .ok ⟨b.value, b.next, Nat.lt_trans b.lt h⟩ := by
  rw [hr]
  rfl

theorem MayRead.since_of_ok {r : MayRead α d} {b : Moved α d} (hr : r = .ok b) (h : d.size < c.size) :
    r.since h = .ok (b.since h) := by
  rw [hr]
  rfl

end Since

end TypeWatch.Reading
