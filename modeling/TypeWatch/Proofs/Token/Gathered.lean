import Mathlib.Data.List.Forall2
import TypeWatch.Proofs.Syntax.Moved
import TypeWatch.Proofs.Token.Order

/-! # String literals in a stretch

Tokens stand in their order, so that a stretch holds those between its ends and no others. What string literals
side by side stand for is what the literals in their stretch stand for (`Token.gathered_next`). Hence a motion may
take the text of every stretch from the tokens that stand where it goes (`Motion.gathering`). -/
namespace TypeWatch
set_option autoImplicit false

/-- Whether a token stands in a stretch. -/
def Span.Holds (s : Span) (t : Token) : Prop := s.start ≤ t.span.start ∧ t.span.stop ≤ s.stop

instance (p q : Position) : Decidable (p ≤ q) :=
  inferInstanceAs (Decidable (p.offset ≤ q.offset ∧ p.line ≤ q.line))

instance (s : Span) (t : Token) : Decidable (s.Holds t) :=
  inferInstanceAs (Decidable (s.start ≤ t.span.start ∧ t.span.stop ≤ s.stop))

theorem TokenKind.isLayout_of_isString {kind : TokenKind} (h : kind.isString = true) : kind.isLayout = false := by
  cases kind <;> first | rfl | exact absurd h nofun

namespace Token

/-- Tokens one after the other. -/
structure Ordered (tokens : List Token) : Prop where
  ordered : tokens.Pairwise Precedes
  proper : ∀ t ∈ tokens, t.Proper

theorem InLines.inOrder {lines : Nat} {tokens : List Token} (h : InLines lines tokens) : Ordered tokens :=
  ⟨h.ordered, h.proper⟩

/-- What the string literals in a stretch stand for, one after the other. -/
def gathered (tokens : List Token) (s : Span) : String :=
  String.join ((tokens.filter fun t => t.kind.isString && decide (s.Holds t)).map text)

section Gathered

variable {tokens before after ts us : List Token} {t u : Token} {s s' : Span} {p : Position}

theorem gathered_append (ts us : List Token) (s : Span) : gathered (ts ++ us) s = gathered ts s ++ gathered us s := by
  rw [gathered, List.filter_append, List.map_append, String.join_append]
  rfl

theorem gathered_cons (t : Token) (ts : List Token) (s : Span) :
    gathered (t :: ts) s = (if t.kind.isString = true ∧ s.Holds t then t.text else "") ++ gathered ts s := by
  rw [gathered, List.filter_cons]
  by_cases h : t.kind.isString = true ∧ s.Holds t
  · simp [h, gathered]
  · have hno : (t.kind.isString && decide (s.Holds t)) = false := by simpa using h
    simp [h, hno, gathered]

theorem gathered_eq_empty (h : ∀ t ∈ ts, t.kind.isString = true → ¬s.Holds t) : gathered ts s = "" := by
  induction ts with
  | nil => rfl
  | cons t ts ih =>
    obtain ⟨ht, hts⟩ := List.forall_mem_cons.mp h
    rw [gathered_cons, ih hts, if_neg fun hboth => ht hboth.1 hboth.2]
    rfl

theorem gathered_congr (h : ∀ t ∈ ts, t.kind.isString = true → (s.Holds t ↔ s'.Holds t)) :
    gathered ts s = gathered ts s' := by
  induction ts with
  | nil => rfl
  | cons t ts ih =>
    obtain ⟨ht, hts⟩ := List.forall_mem_cons.mp h
    rw [gathered_cons, gathered_cons, ih hts]
    have hsame : (t.kind.isString = true ∧ s.Holds t) = (t.kind.isString = true ∧ s'.Holds t) :=
      propext (and_congr_right ht)
    simp only [hsame]

/-- A literal takes room. -/
theorem Proper.lt_of_string (h : t.Proper) (hstring : t.kind.isString = true) : t.span.start < t.span.stop :=
  h.lt (TokenKind.isLayout_of_isString hstring)

/-- What stands before a token, and what stands after it. -/
theorem Ordered.around (h : Ordered (before ++ t :: after)) :
    (∀ v ∈ before, v.span.stop ≤ t.span.start) ∧ ∀ v ∈ after, t.span.stop ≤ v.span.start := by
  obtain ⟨-, hafter, hbefore⟩ := List.pairwise_append.mp h.ordered
  exact ⟨fun v hv => (hbefore v hv t List.mem_cons_self).1, fun v hv => ((List.pairwise_cons.mp hafter).1 v hv).1⟩

/-- Tokens are the same, or one of them stands before the other. -/
theorem Ordered.apart (h : Ordered tokens) (ht : t ∈ tokens) (hu : u ∈ tokens) :
    t = u ∨ t.span.stop ≤ u.span.start ∨ u.span.stop ≤ t.span.start := by
  obtain ⟨before, after, rfl⟩ := List.append_of_mem ht
  obtain ⟨hbefore, hafter⟩ := h.around
  rcases List.mem_append.mp hu with hu | hu
  · exact Or.inr (Or.inr (hbefore u hu))
  · rcases List.mem_cons.mp hu with rfl | hu
    · exact Or.inl rfl
    · exact Or.inr (Or.inl (hafter u hu))

theorem Ordered.start_total (h : Ordered tokens) (ht : t ∈ tokens) (hu : u ∈ tokens) :
    t.span.start ≤ u.span.start ∨ u.span.start ≤ t.span.start := by
  rcases h.apart ht hu with rfl | htu | hut
  · exact Or.inl (Position.le_refl _)
  · exact Or.inl (Position.le_trans (h.proper t ht).le htu)
  · exact Or.inr (Position.le_trans (h.proper u hu).le hut)

theorem Ordered.stop_total (h : Ordered tokens) (ht : t ∈ tokens) (hu : u ∈ tokens) :
    t.span.stop ≤ u.span.stop ∨ u.span.stop ≤ t.span.stop := by
  rcases h.apart ht hu with rfl | htu | hut
  · exact Or.inl (Position.le_refl _)
  · exact Or.inl (Position.le_trans htu (h.proper u hu).le)
  · exact Or.inr (Position.le_trans hut (h.proper t ht).le)

/-- A stretch that ends before a token does not hold it. -/
theorem not_holds_of_stop (hproper : t.Proper) (hstring : t.kind.isString = true) (h : s.stop ≤ t.span.start) :
    ¬s.Holds t := fun hin =>
  Position.lt_irrefl _ (Position.lt_of_lt_of_le (hproper.lt_of_string hstring) (Position.le_trans hin.2 h))

/-- A stretch that begins after a token does not hold it. -/
theorem not_holds_of_start (hproper : t.Proper) (hstring : t.kind.isString = true) (h : t.span.stop ≤ s.start) :
    ¬s.Holds t := fun hin =>
  Position.lt_irrefl _ (Position.lt_of_lt_of_le (hproper.lt_of_string hstring) (Position.le_trans h hin.1))

/-- A literal is the only one in its stretch. -/
theorem gathered_self (h : Ordered tokens) (ht : t ∈ tokens) (hstring : t.kind.isString = true) :
    gathered tokens t.span = t.text := by
  obtain ⟨before, after, rfl⟩ := List.append_of_mem ht
  obtain ⟨hbefore, hafter⟩ := h.around
  have hnone : gathered before t.span = "" := gathered_eq_empty fun v hv hv' =>
    not_holds_of_start (h.proper v (List.mem_append_left _ hv)) hv' (hbefore v hv)
  have hnone' : gathered after t.span = "" := gathered_eq_empty fun v hv hv' =>
    not_holds_of_stop (h.proper v (List.mem_append_right _ (List.mem_cons_of_mem _ hv))) hv' (hafter v hv)
  have hself : t.span.Holds t := ⟨Position.le_refl _, Position.le_refl _⟩
  rw [gathered_append, gathered_cons, hnone, hnone', if_pos ⟨hstring, hself⟩, String.append_empty, String.empty_append]

/-- A stretch that is longer by the next token, which is a literal, stands for the text of that in addition. -/
theorem gathered_next (h : Ordered (before ++ t :: u :: after)) (hstring : u.kind.isString = true)
    (hp : p ≤ u.span.start) : gathered (before ++ t :: u :: after) ⟨p, u.span.stop⟩ =
      gathered (before ++ t :: u :: after) ⟨p, t.span.stop⟩ ++ u.text := by
  obtain ⟨hbefore, hbetween⟩ := h.around
  have hsplit : before ++ t :: u :: after = (before ++ [t]) ++ u :: after := by
    rw [List.append_assoc]
    rfl
  rw [hsplit] at h ⊢
  obtain ⟨-, hafter⟩ := h.around
  have htu := hbetween u List.mem_cons_self
  have hproper {v : Token} (hv : v ∈ u :: after) : v.Proper := h.proper v (List.mem_append_right _ hv)
  have ht : t.Proper := h.proper t (List.mem_append_left _ (List.mem_append_right _ (List.mem_singleton.mpr rfl)))
  -- up to the first token nothing changes
  have hfirst : gathered (before ++ [t]) ⟨p, u.span.stop⟩ = gathered (before ++ [t]) ⟨p, t.span.stop⟩ := by
    refine gathered_congr fun v hv _ => and_congr_right fun _ => ?_
    have hstop : v.span.stop ≤ t.span.stop := by
      rcases List.mem_append.mp hv with hv | hv
      · exact Position.le_trans (hbefore v hv) ht.le
      · obtain rfl := List.mem_singleton.mp hv
        exact Position.le_refl _
    have hlong : v.span.stop ≤ u.span.stop :=
      Position.le_trans hstop (Position.le_trans htu (hproper List.mem_cons_self).le)
    exact iff_of_true hlong hstop
  -- and after the second one nothing is held
  have hlong : gathered after ⟨p, u.span.stop⟩ = "" := gathered_eq_empty fun v hv hv' =>
    not_holds_of_stop (hproper (List.mem_cons_of_mem _ hv)) hv' (hafter v hv)
  have hshort : gathered (u :: after) ⟨p, t.span.stop⟩ = "" := gathered_eq_empty fun v hv hv' =>
    not_holds_of_stop (hproper hv) hv' (hbetween v hv)
  have hin : (⟨p, u.span.stop⟩ : Span).Holds u := ⟨hp, Position.le_refl _⟩
  rw [gathered_append (before ++ [t]), gathered_append (before ++ [t]), gathered_cons u, if_pos ⟨hstring, hin⟩, hfirst,
    hlong, hshort, String.append_empty, String.append_empty]

end Gathered

/-! ## Motions -/

/-- A token that stands where another one goes and is of its kind. The texts of literals may differ. -/
structure Answers (start stop : Position → Position) (t u : Token) : Prop where
  kind : u.kind = t.kind
  span : u.span = ⟨start t.span.start, stop t.span.stop⟩
  text : t.kind.isString = false → u.text = t.text

end Token

namespace Motion

open Token (Answers Ordered gathered)

/-- Whether a motion of some tokens takes the text of every stretch from those that stand where it goes. -/
def Gathers (μ : Motion) (ts : List Token) : Prop :=
  ∀ s text, μ.literal s text = gathered (ts.map (Token.moved μ)) (s.moved μ)

/-- The motion that takes the text of a stretch from some tokens. -/
def gathering (start stop : Position → Position) (tokens : List Token) : Motion :=
  { start := start, stop := stop, literal := fun s _ => gathered tokens ⟨start s.start, stop s.stop⟩ }

section Gathering

variable {start stop : Position → Position} {all ts us : List Token}

theorem moved_gathering (h : Ordered all) {t u : Token} (hu : u ∈ all) (htu : Answers start stop t u) :
    t.moved (gathering start stop all) = u := by
  obtain ⟨kind, text, span⟩ := u
  obtain ⟨rfl, rfl, htext⟩ := htu
  cases hstring : t.kind.isString with
  | true =>
    rw [Token.moved, if_pos hstring]
    exact congrArg (Token.mk t.kind · _) (Token.gathered_self h hu hstring)
  | false =>
    rw [Token.moved, hstring]
    exact congrArg (Token.mk t.kind · _) (htext hstring).symm

theorem map_gathering (h : Ordered all) (hus : List.Forall₂ (Answers start stop) ts us) (hmem : ∀ u ∈ us, u ∈ all) :
    ts.map (Token.moved (gathering start stop all)) = us := by
  induction hus with
  | nil => rfl
  | cons htu _ ih =>
    obtain ⟨hu, hus⟩ := List.forall_mem_cons.mp hmem
    rw [List.map_cons, moved_gathering h hu htu, ih hus]

theorem gathers_gathering (h : Ordered us) (hus : List.Forall₂ (Answers start stop) ts us) :
    (gathering start stop us).Gathers ts := by
  intro s text
  rw [map_gathering h hus fun _ hu => hu]
  rfl

end Gathering

/-- Literals side by side stand for what the tokens stand for where they go. -/
theorem Gathers.joins {μ : Motion} {before rest : List Token} {t : Token} (hμ : μ.Gathers (before ++ t :: rest))
    (h : Ordered ((before ++ t :: rest).map (Token.moved μ))) (text : String) {p : Position}
    (hp : μ.start p ≤ μ.start t.span.start) : μ.Joins p t.span.stop text rest := by
  induction rest generalizing before t text with
  | nil => trivial
  | cons u rest ih =>
    intro hstring
    have hmap : (before ++ t :: u :: rest).map (Token.moved μ) =
        before.map (Token.moved μ) ++ t.moved μ :: u.moved μ :: rest.map (Token.moved μ) := by
      rw [List.map_append, List.map_cons, List.map_cons]
    have hordered := hmap ▸ h
    have ht : (t.moved μ).Proper := hordered.proper _ (List.mem_append_right _ List.mem_cons_self)
    have hle : μ.start p ≤ μ.start u.span.start :=
      Position.le_trans hp (Position.le_trans ht.le (hordered.around.2 _ List.mem_cons_self))
    have happend : before ++ t :: u :: rest = (before ++ [t]) ++ u :: rest := (List.append_cons before t (u :: rest))
    refine ⟨?_, ih (happend ▸ hμ) (happend ▸ h) _ hle⟩
    have hmem : u.moved μ ∈ before.map (Token.moved μ) ++ t.moved μ :: u.moved μ :: rest.map (Token.moved μ) :=
      List.mem_append_right _ (List.mem_cons_of_mem _ List.mem_cons_self)
    rw [hμ, hμ, hμ, hmap]
    calc gathered _ (Span.moved μ ⟨p, u.span.stop⟩)
        = gathered _ (Span.moved μ ⟨p, t.span.stop⟩) ++ (u.moved μ).text := Token.gathered_next hordered hstring hle
      _ = gathered _ (Span.moved μ ⟨p, t.span.stop⟩) ++ gathered _ (u.moved μ).span := by
        rw [Token.gathered_self hordered hmem hstring]

end Motion

end TypeWatch
