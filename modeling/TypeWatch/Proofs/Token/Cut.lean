import TypeWatch.Proofs.Token.Order

/-! # Where tokens begin and where the layout fails

Every token begins, and every fault is told, where a piece of the text begins or at the end of the pieces
(`Layout.run_starts`, `Layout.run_fails`). So all these places lie between two characters of the
text (`tokenize_starts`, `tokenize_fails`). -/
namespace TypeWatch
set_option autoImplicit false

/-- A place between two characters of a text that begins at a place, or at one of its ends. -/
def Position.Cuts (p : Position) (cs : List Char) (q : Position) : Prop :=
  ∃ before behind, cs = before ++ behind ∧ q = p.after before

/-- A step that fails, or one after it. -/
theorem exists_of_bind_error {ε α β : Type} {r : Except ε α} {f : α → Except ε β} {e : ε}
    (h : r >>= f = .error e) : r = .error e ∨ ∃ a, r = .ok a ∧ f a = .error e := by
  cases r with
  | error e' => exact Or.inl (congrArg Except.error (Except.error.inj h))
  | ok a => exact Or.inr ⟨a, rfl, h⟩

namespace Position.Cuts

variable {p q : Position} {cs ds : List Char}

theorem start (p : Position) (cs : List Char) : p.Cuts cs p := ⟨[], cs, rfl, rfl⟩

theorem later (h : (p.after cs).Cuts ds q) : p.Cuts (cs ++ ds) q := by
  obtain ⟨before, behind, rfl, rfl⟩ := h
  refine ⟨cs ++ before, behind, (List.append_assoc _ _ _).symm, ?_⟩
  rw [after_append]

theorem append (h : p.Cuts cs q) (ds : List Char) : p.Cuts (cs ++ ds) q := by
  obtain ⟨before, behind, rfl, hq⟩ := h
  exact ⟨before, behind ++ ds, List.append_assoc _ _ _, hq⟩

end Position.Cuts

namespace Layout

variable {s s' : State} {piece : Piece} {pieces : List Piece} {tokens : List Token} {e : SyntaxError}

/-! ## Steps -/

theorem openLine_error (h : openLine s = .error e) : e.position = s.position := by
  unfold openLine at h
  split at h
  · cases h
  · split at h
    · cases h
    · dsimp only at h
      split at h
      · cases h
      · cases h
        rfl

theorem closeLine_start (s : State) : ∀ t ∈ closeLine s, t.span.start = s.position := by
  intro t ht
  unfold closeLine at ht
  split at ht
  · obtain rfl := List.mem_singleton.mp ht
    rfl
  · exact absurd ht List.not_mem_nil

/-- The tokens of a piece begin where the piece begins. -/
theorem step_start (h : step s piece = .ok (s', tokens)) : ∀ t ∈ tokens, t.span.start = s.position := by
  cases steps_of_step h with
  | lineEnd => exact closeLine_start s
  | joined | blanks | comment => exact fun _ ht => absurd ht List.not_mem_nil
  | continuation chars hopen =>
    intro t ht
    rw [(openLine_ok hopen).2.span_eq ht]
  | token kind chars hopen =>
    intro t ht
    obtain ⟨hposition, hmarks⟩ := openLine_ok hopen
    rcases List.mem_append.mp ht with ht | ht
    · rw [hmarks.span_eq ht]
    · obtain rfl := List.mem_singleton.mp ht
      exact hposition

theorem step_error (h : step s piece = .error e) : e.position = s.position := by
  obtain ⟨lexeme, chars⟩ := piece
  cases lexeme with
  | lineBreak =>
    simp only [step] at h
    split at h <;> cases h
  | blanks | comment => cases h
  | continuation | token =>
    cases hopen : openLine s with
    | error e' =>
      simp only [step, hopen] at h
      cases h
      exact openLine_error hopen
    | ok opened =>
      simp only [step, hopen] at h
      cases h

theorem stop_position (s : State) (fault : Fault) : (stop s fault).position = s.position := by
  unfold stop
  split
  · rfl
  · split
    · rename_i e hopen
      exact openLine_error hopen
    · rfl

/-! ## Texts -/

/-- The tokens of some pieces begin in the text of the pieces. -/
theorem run_starts {fault : Option Fault} (hw : ∀ p ∈ pieces, p.WellFormed) (h : run s fault pieces = .ok tokens) :
    ∀ t ∈ tokens, s.position.Cuts (pieces.flatMap Piece.chars) t.span.start := by
  induction pieces generalizing s tokens with
  | nil =>
    obtain ⟨-, rfl⟩ := run_nil_ok h
    intro t ht
    rw [(finish_layout s t ht).2]
    exact .start _ _
  | cons piece pieces ih =>
    obtain ⟨hpiece, hpieces⟩ := List.forall_mem_cons.mp hw
    obtain ⟨s1, first, others, hstep, hrest, rfl⟩ := run_cons_ok h
    have hothers := ih hpieces hrest
    rw [(step_placed hpiece hstep).1] at hothers
    intro t ht
    rcases List.mem_append.mp ht with ht | ht
    · rw [step_start hstep t ht]
      exact .start _ _
    · exact (hothers t ht).later

/-- The reading of some pieces fails in the text of the pieces. -/
theorem run_fails {fault : Option Fault} (hw : ∀ p ∈ pieces, p.WellFormed) (h : run s fault pieces = .error e) :
    s.position.Cuts (pieces.flatMap Piece.chars) e.position := by
  induction pieces generalizing s with
  | nil =>
    cases fault with
    | none => cases h
    | some fault =>
      obtain rfl := Except.error.inj h
      rw [stop_position]
      exact .start _ _
  | cons piece pieces ih =>
    obtain ⟨hpiece, hpieces⟩ := List.forall_mem_cons.mp hw
    rw [run] at h
    rcases exists_of_bind_error h with hstep | ⟨⟨s1, first⟩, hstep, h⟩
    · rw [step_error hstep]
      exact .start _ _
    · rcases exists_of_bind_error h with hrest | ⟨others, -, h⟩
      · have hothers := ih hpieces hrest
        rw [(step_placed hpiece hstep).1] at hothers
        exact hothers.later
      · cases h

end Layout

/-- The tokens of a text begin between its characters. -/
theorem tokenize_starts {source : String} {tokens : List Token} (h : tokenize source = .ok tokens) :
    ∀ t ∈ tokens, Position.first.Cuts source.toList t.span.start := by
  obtain ⟨rest, happ, -⟩ := Piece.split_prefix source.toList
  intro t ht
  rw [← happ]
  exact (Layout.run_starts (Piece.wellFormed_split source.toList) h t ht).append rest

/-- A text that has no tokens has a fault between its characters. -/
theorem tokenize_fails {source : String} {e : SyntaxError} (h : tokenize source = .error e) :
    Position.first.Cuts source.toList e.position := by
  obtain ⟨rest, happ, -⟩ := Piece.split_prefix source.toList
  rw [← happ]
  exact (Layout.run_fails (Piece.wellFormed_split source.toList) h).append rest

end TypeWatch
