import TypeWatch.Proofs.Reading.LockstepExpr

/-! # Readers side by side

Two streams of tokens lie side by side if the tokens of the one are those of the other with their places moved,
up to the end of the one (`Alongside`). A reader that succeeds on the one succeeds on the other, and gives what
it gave there, moved in the same way (`Matches`). What comes after the tokens of the one stream is not read. -/
namespace TypeWatch.Reading
set_option autoImplicit false

open Layout (depthAfter)

/-! ## Streams -/

/-- How two streams compare: where the places of the first one go, how many brackets are open after it, and
what the second one has after the tokens of the first, with the token that ends it. -/
structure Outlook where
  motion : Motion
  depth : Nat
  tail : List Token
  stop : Token

/-- Two streams at places side by side: whether a token stands on the line, how many blocks and how many brackets
are open. The places of tokens that open and close blocks may differ. -/
inductive Alongside (o : Outlook) : Bool → Nat → Nat → List Token → List Token → Prop
  | ended : Alongside o false 0 o.depth [] o.tail
  | opened {blocks depth : Nat} {t u : Token} {ts us : List Token} : t.kind = .indent → u.kind = .indent →
      Alongside o false (blocks + 1) depth ts us → Alongside o false blocks depth (t :: ts) (u :: us)
  | closed {blocks depth : Nat} {t u : Token} {ts us : List Token} : t.kind = .dedent → u.kind = .dedent →
      Alongside o false blocks depth ts us → Alongside o false (blocks + 1) depth (t :: ts) (u :: us)
  | token {begun : Bool} {blocks depth : Nat} {t : Token} {ts us : List Token} : t.kind.isLayout = false →
      o.motion.Joins t.span.start t.span.stop t.text ts →
      Alongside o true blocks (depthAfter depth t.kind) ts us →
      Alongside o begun blocks depth (t :: ts) (t.moved o.motion :: us)
  | newline {blocks depth : Nat} {t : Token} {ts us : List Token} : t.kind = .newline →
      Alongside o false blocks depth ts us → Alongside o true blocks depth (t :: ts) (t.moved o.motion :: us)

/-- Places in two streams side by side. -/
structure Beside (o : Outlook) (begun : Bool) (blocks depth : Nat) (c d : Cursor) : Prop where
  rest : Alongside o begun blocks depth c.rest d.rest
  ends : c.last.kind = .endOfInput
  last : d.last = o.stop
  lastEnd : d.lastEnd = o.motion.stop c.lastEnd

/-! ## Places side by side -/

/-- What a reader gives on the second stream is what it gave on the first, moved. -/
def Outlook.Keeps {α β : Type} (o : Outlook) (begun : Bool) (blocks depth : Nat) (g : α → β) (x : α) (c : Cursor)
    (y : β) (d : Cursor) : Prop := y = g x ∧ Beside o begun blocks depth c d

namespace Beside

variable {o : Outlook} {begun : Bool} {blocks depth : Nat} {c d : Cursor}

/-- The stretch up to the last token is moved. -/
theorem spanFrom (h : Beside o begun blocks depth c d) (p : Position) :
    d.spanFrom (o.motion.start p) = (c.spanFrom p).moved o.motion := by
  rw [Cursor.spanFrom, h.lastEnd]
  rfl

theorem past (h : Beside o begun blocks depth c d) {begun' : Bool} {blocks' depth' : Nat} {t u : Token}
    {ts us : List Token} (hrest : Alongside o begun' blocks' depth' ts us)
    (hend : (if u.kind.isLayout then d.lastEnd else u.span.stop) =
      o.motion.stop (if t.kind.isLayout then c.lastEnd else t.span.stop)) :
    Beside o begun' blocks' depth' (c.past t ts) (d.past u us) :=
  ⟨hrest, h.ends, h.last, hend⟩

/-- Past tokens of the layout nothing is moved. -/
theorem past_layout (h : Beside o begun blocks depth c d) {begun' : Bool} {blocks' depth' : Nat} {t u : Token}
    {ts us : List Token} (hrest : Alongside o begun' blocks' depth' ts us) (ht : t.kind.isLayout = true)
    (hu : u.kind.isLayout = true) : Beside o begun' blocks' depth' (c.past t ts) (d.past u us) := by
  refine h.past hrest ?_
  rw [if_pos ht, if_pos hu, h.lastEnd]

theorem past_token (h : Beside o begun blocks depth c d) {begun' : Bool} {blocks' depth' : Nat} {t : Token}
    {ts us : List Token} (hrest : Alongside o begun' blocks' depth' ts us) (ht : t.kind.isLayout = false) :
    Beside o begun' blocks' depth' (c.past t ts) (d.past (t.moved o.motion) us) := by
  have hu : (t.moved o.motion).kind.isLayout = false := ht
  refine h.past hrest ?_
  rw [ht, hu]
  rfl

end Beside

/-- What the next tokens of two streams are on a line that goes on. -/
inductive NextBeside (o : Outlook) (blocks depth : Nat) (c d : Cursor) : Prop
  | token {t : Token} {c1 d1 : Cursor} {h : c1.size < c.size} {h' : d1.size < d.size} : t.kind.isLayout = false →
      o.motion.Joins t.span.start c1.lastEnd t.text c1.rest →
      c.next? = some ⟨t, c1, h⟩ → d.next? = some ⟨t.moved o.motion, d1, h'⟩ →
      Beside o true blocks (depthAfter depth t.kind) c1 d1 → NextBeside o blocks depth c d
  | newline {t : Token} {c1 d1 : Cursor} {h : c1.size < c.size} {h' : d1.size < d.size} : t.kind = .newline →
      c.next? = some ⟨t, c1, h⟩ → d.next? = some ⟨t.moved o.motion, d1, h'⟩ →
      Beside o false blocks depth c1 d1 → NextBeside o blocks depth c d

/-- What the next tokens of two streams are if they are of a kind. -/
inductive AcceptBeside (o : Outlook) (blocks depth : Nat) (kind : TokenKind) (c d : Cursor) : Prop
  | none : c.accept? kind = none → d.accept? kind = none → AcceptBeside o blocks depth kind c d
  | some {t : Token} {c1 d1 : Cursor} {h : c1.size < c.size} {h' : d1.size < d.size} : t.kind = kind →
      c.accept? kind = some ⟨t, c1, h⟩ → d.accept? kind = some ⟨t.moved o.motion, d1, h'⟩ →
      Beside o true blocks (depthAfter depth kind) c1 d1 → AcceptBeside o blocks depth kind c d

namespace Beside

variable {o : Outlook} {blocks depth : Nat} {c d : Cursor}

theorem next (hcd : Beside o true blocks depth c d) : NextBeside o blocks depth c d := by
  have hrest := hcd.rest
  generalize hts : c.rest = ts at hrest
  generalize hus : d.rest = us at hrest
  cases hrest with
  | token hno hjoins hrest =>
    obtain ⟨_, hc⟩ := next?_eq_some hts
    obtain ⟨_, hd⟩ := next?_eq_some hus
    refine .token hno ?_ hc hd (hcd.past_token hrest hno)
    rw [← (Cursor.next?_passes hc).lastEnd_eq hno]
    exact hjoins
  | newline ht hrest =>
    obtain ⟨_, hc⟩ := next?_eq_some hts
    obtain ⟨_, hd⟩ := next?_eq_some hus
    have hlayout : ∀ kind, kind = TokenKind.newline → kind.isLayout = true := fun _ h => h ▸ rfl
    exact .newline ht hc hd (hcd.past_layout hrest (hlayout _ ht) (hlayout _ ht))

end Beside

/-- Streams side by side are in lockstep. Their borders are the ends of lines. -/
def Outlook.lockstep (o : Outlook) (blocks : Nat) : Lockstep where
  motion := o.motion
  others _ := False
  At depth c d := Beside o true blocks depth c d
  lastEnd h := h.lastEnd
  next h := by
    cases h.next with
    | token hno hjoins hc hd hnext => exact .token hno (fun _ => Or.inr id) hjoins hc hd hnext
    | newline ht hc hd _ => exact .border (by rw [Token.moved, ht]; exact .line) rfl hc hd

theorem Outlook.meets_newline (o : Outlook) {blocks depth : Nat} {k k' : TokenKind}
    (h : Meets (o.lockstep blocks).others depth k k') : k = .newline ∧ k' = .newline := by
  cases h with
  | line => exact ⟨rfl, rfl⟩
  | border _ _ _ _ hno => exact hno.elim

theorem Outlook.blind (o : Outlook) (blocks depth : Nat) {β : Type} (p : TokenKind → β) :
    (o.lockstep blocks).Blind depth p := by
  intro k k' h
  rw [(o.meets_newline h).1, (o.meets_newline h).2]

theorem Outlook.clear (o : Outlook) (blocks depth : Nat) (c : Cursor) : (o.lockstep blocks).Clear depth c := by
  intro k h
  rw [(o.meets_newline h).1, (o.meets_newline h).2]

namespace Beside

variable {o : Outlook} {blocks depth : Nat} {c d : Cursor}

theorem kind (hcd : Beside o true blocks depth c d) : d.kind = c.kind := (o.blind blocks depth id).kind hcd

theorem position (hcd : Beside o true blocks depth c d) : d.position = o.motion.start c.position :=
  Lockstep.position (L := o.lockstep blocks) hcd

theorem acceptAt (hcd : Beside o true blocks depth c d) (kind : TokenKind) (hkind : kind.isLayout = false) :
    AcceptAt (o.lockstep blocks) depth kind c d := by
  have hne : TokenKind.newline ≠ kind := by
    rintro rfl
    cases hkind
  refine Lockstep.accept_of hcd fun k h => ?_
  rw [(o.meets_newline h).1, (o.meets_newline h).2]
  exact ⟨hne, hne⟩

theorem accept (hcd : Beside o true blocks depth c d) (kind : TokenKind) (hkind : kind.isLayout = false) :
    AcceptBeside o blocks depth kind c d := by
  cases hcd.acceptAt kind hkind with
  | none hc hd => exact .none hc hd
  | some ht hc hd hnext => exact .some ht hc hd hnext

theorem demand (hcd : Beside o true blocks depth c d) {kind : TokenKind} (hkind : kind.isLayout = false)
    (fault fault' : Fault) : (c.demand kind fault).Matches (d.demand kind fault') fun t c1 u d1 =>
      u = t.moved o.motion ∧ t.kind = kind ∧ Beside o true blocks (depthAfter depth kind) c1 d1 :=
  Lockstep.demand_of (hcd.acceptAt kind hkind) fault fault'

theorem expect (hcd : Beside o true blocks depth c d) {kind : TokenKind} (hkind : kind.isLayout = false) :
    (c.expect kind).Matches (d.expect kind) fun t c1 u d1 =>
      u = t.moved o.motion ∧ t.kind = kind ∧ Beside o true blocks (depthAfter depth kind) c1 d1 :=
  hcd.demand hkind _ _

theorem expectName (hcd : Beside o true blocks depth c d) :
    c.expectName.Matches d.expectName (o.Keeps true blocks depth id) :=
  Lockstep.expectName (L := o.lockstep blocks) hcd

end Beside

/-! ## Lines -/

/-- What two places are where a line begins. -/
inductive LineBeside (o : Outlook) (blocks depth : Nat) (c d : Cursor) : Prop
  | ended : blocks = 0 → depth = o.depth → c.rest = [] → d.rest = o.tail → LineBeside o blocks depth c d
  | opened {t u : Token} {c1 d1 : Cursor} {h : c1.size < c.size} {h' : d1.size < d.size} : t.kind = .indent →
      u.kind = .indent → c.next? = some ⟨t, c1, h⟩ → d.next? = some ⟨u, d1, h'⟩ →
      Beside o false (blocks + 1) depth c1 d1 → LineBeside o blocks depth c d
  | closed {outer : Nat} {t u : Token} {c1 d1 : Cursor} {h : c1.size < c.size} {h' : d1.size < d.size} :
      blocks = outer + 1 → t.kind = .dedent → u.kind = .dedent → c.next? = some ⟨t, c1, h⟩ →
      d.next? = some ⟨u, d1, h'⟩ → Beside o false outer depth c1 d1 → LineBeside o blocks depth c d
  | token : c.kind.isLayout = false → Beside o true blocks depth c d → LineBeside o blocks depth c d

namespace Beside

variable {o : Outlook} {blocks depth : Nat} {c d : Cursor}

theorem line (hcd : Beside o false blocks depth c d) : LineBeside o blocks depth c d := by
  have hrest := hcd.rest
  have hlayout (kind : TokenKind) (h : kind = .indent ∨ kind = .dedent) : kind.isLayout = true := by
    rcases h with rfl | rfl <;> rfl
  generalize hts : c.rest = ts at hrest
  generalize hus : d.rest = us at hrest
  cases hrest with
  | ended => exact .ended rfl rfl hts hus
  | opened ht hu hrest =>
    obtain ⟨_, hc⟩ := next?_eq_some hts
    obtain ⟨_, hd⟩ := next?_eq_some hus
    exact .opened ht hu hc hd (hcd.past_layout hrest (hlayout _ (Or.inl ht)) (hlayout _ (Or.inl hu)))
  | closed ht hu hrest =>
    obtain ⟨_, hc⟩ := next?_eq_some hts
    obtain ⟨_, hd⟩ := next?_eq_some hus
    exact .closed rfl ht hu hc hd (hcd.past_layout hrest (hlayout _ (Or.inr ht)) (hlayout _ (Or.inr hu)))
  | token hno hjoins hrest =>
    obtain ⟨_, hc⟩ := next?_eq_some hts
    refine .token ((kind_of_next? hc).symm ▸ hno) ⟨?_, hcd.ends, hcd.last, hcd.lastEnd⟩
    rw [hts, hus]
    exact .token hno hjoins hrest

theorem kind_of_ended {begun : Bool} (hcd : Beside o begun blocks depth c d) (hrest : c.rest = []) :
    c.kind = .endOfInput := by
  rw [Cursor.kind, Cursor.token, hrest]
  exact hcd.ends

/-- A line goes on with a token that is no layout. -/
theorem begun {begun : Bool} (hcd : Beside o begun blocks depth c d) (hkind : c.kind.isLayout = false) :
    Beside o true blocks depth c d := by
  cases begun with
  | true => exact hcd
  | false =>
    have hno {kind : TokenKind} (h : c.kind = kind) (hlayout : kind.isLayout = true) : False := by
      rw [h, hlayout] at hkind
      exact absurd hkind nofun
    cases hcd.line with
    | ended _ _ hrest _ => exact (hno (hcd.kind_of_ended hrest) rfl).elim
    | opened ht _ hc _ _ => exact (hno ((kind_of_next? hc).trans ht) rfl).elim
    | closed _ ht _ hc _ _ => exact (hno ((kind_of_next? hc).trans ht) rfl).elim
    | token _ hbegun => exact hbegun

/-- The end of a line. -/
theorem lineEnd (hcd : Beside o true blocks depth c d) :
    c.accept? .newline = none ∧ d.accept? .newline = none ∨
      ∃ t c1 h d1 h', c.accept? .newline = some ⟨t, c1, h⟩ ∧ d.accept? .newline = some ⟨t.moved o.motion, d1, h'⟩ ∧
        Beside o false blocks depth c1 d1 := by
  cases hcd.next with
  | @token t _ _ _ _ hno _ hc hd _ =>
    have hne : ¬t.kind = .newline := by
      intro ht
      rw [ht] at hno
      exact absurd hno nofun
    exact Or.inl ⟨(accept?_of_next? hc _).trans (if_neg hne), (accept?_of_next? hd _).trans (if_neg hne)⟩
  | newline ht hc hd hnext =>
    exact Or.inr ⟨_, _, _, _, _, (accept?_of_next? hc _).trans (if_pos ht), (accept?_of_next? hd _).trans (if_pos ht),
      hnext⟩

theorem expectNewline (hcd : Beside o true blocks depth c d) :
    (c.expect .newline).Matches (d.expect .newline) fun _ c1 _ d1 => Beside o false blocks depth c1 d1 := by
  unfold Cursor.expect Cursor.demand
  rcases hcd.lineEnd with ⟨hc, _⟩ | ⟨_, _, _, _, _, hc, hd, hnext⟩
  · rw [hc]
    exact matches_error _ _ _
  · rw [hc, hd]
    exact matches_ok hnext

end Beside

/-! ## Items -/

/-- What is said of two readers of items. -/
def KeepsItems {α : Type} (o : Outlook) {n n' : Nat} (item : ItemBelow α n) (item' : ItemBelow α n') (g : α → α) :
    Prop := ∀ {blocks depth : Nat} {c d : Cursor} (h : c.size < n) (h' : d.size < n'),
  Beside o true blocks depth c d → (item c h).Matches (item' d h') (o.Keeps true blocks depth g)

/-- What is said of two readers of expressions. -/
def KeepsExprs (o : Outlook) {n n' : Nat} (sub : Below n) (sub' : Below n') : Prop :=
  ∀ level, KeepsItems o (sub level) (sub' level) (Expr.moved o.motion)

section Items

variable {α : Type} {o : Outlook} {n n' : Nat} {item : ItemBelow α n} {item' : ItemBelow α n'} {g : α → α}
  {blocks depth : Nat} {c d : Cursor}

theorem KeepsItems.lockstep (hitem : KeepsItems o item item' g) (blocks depth : Nat) :
    (o.lockstep blocks).KeepsItems depth item item' g := fun h h' hcd => hitem h h' hcd

theorem someItems_matches (hitem : KeepsItems o item item' g) (ends : TokenKind → Bool)
    (hcd : Beside o true blocks depth c d) (h : c.size < n) (h' : d.size < n') :
    (someItems item ends c h).Matches (someItems item' ends d h') (o.Keeps true blocks depth (List.map g)) :=
  Lockstep.someItems_matches (hitem.lockstep blocks depth) (o.blind blocks depth ends) (Or.inr id) hcd h h'

end Items

/-! ## Expressions -/

section Exprs

variable {o : Outlook} {n n' : Nat} {sub : Below n} {sub' : Below n'} {blocks depth : Nat} {c d : Cursor}

theorem KeepsExprs.lockstep (hsub : KeepsExprs o sub sub') (blocks : Nat) : (o.lockstep blocks).KeepsExprs sub sub' :=
  fun level depth => KeepsItems.lockstep (hsub level) blocks depth

theorem exprList_matches (hsub : KeepsExprs o sub sub') (level : Power) (hcd : Beside o true blocks depth c d)
    (h : c.size < n) (h' : d.size < n') : (exprList sub level c h).Matches (exprList sub' level d h')
      (o.Keeps true blocks depth (Expr.moved o.motion)) :=
  Lockstep.exprList_matches (hsub.lockstep blocks) (Or.inr id) level hcd h h'

theorem exprAfter_matches (hsub : KeepsExprs o sub sub') {mark : TokenKind} (hmark : mark.isLayout = false)
    (hbracket : depthAfter depth mark = depth) (level : Power) (hcd : Beside o true blocks depth c d)
    (h : c.size < n) (h' : d.size < n') : (exprAfter sub mark level c h).Matches (exprAfter sub' mark level d h')
      (o.Keeps true blocks depth (Option.map (Expr.moved o.motion))) :=
  Lockstep.exprAfter_matches (hsub.lockstep blocks) (hcd.acceptAt mark hmark) hbracket level hcd h h'

theorem parameters_matches (hsub : KeepsExprs o sub sub') (closing : TokenKind) (annotated : Bool)
    (hcd : Beside o true blocks depth c d) (h : c.size < n) (h' : d.size < n') :
    (parameters sub closing annotated c h).Matches (parameters sub' closing annotated d h')
      (o.Keeps true blocks depth (List.map (Parameter.moved o.motion))) :=
  fun _ ha => Lockstep.parameters_clear (hsub.lockstep blocks) closing annotated hcd h h' ha (o.clear blocks depth _)

theorem arguments_matches (hsub : KeepsExprs o sub sub') (hcd : Beside o true blocks depth c d) (h : c.size < n)
    (h' : d.size < n') : (arguments sub c h).Matches (arguments sub' d h')
      (o.Keeps true blocks depth (List.map (Expr.moved o.motion))) :=
  Lockstep.arguments_matches (hsub.lockstep blocks) hcd h h'

theorem expr_matches (level : Power) (hcd : Beside o true blocks depth c d) :
    (expr level c).Matches (expr level d) (o.Keeps true blocks depth (Expr.moved o.motion)) :=
  Lockstep.expr_matches (L := o.lockstep blocks) level hcd

/-- What an expression is depends on the tokens of its line alone. -/
theorem keepsExprs_exprBelow (o : Outlook) (n n' : Nat) : KeepsExprs o (exprBelow n) (exprBelow n') :=
  fun level _ _ _ _ _ _ hcd => expr_matches level hcd

end Exprs

end TypeWatch.Reading
