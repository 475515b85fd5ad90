import TypeWatch.Proofs.Lexeme.Joined
import TypeWatch.Proofs.Reading.BesideSuite
import TypeWatch.Proofs.Reading.Progress
import TypeWatch.Proofs.Reading.Spelled
import TypeWatch.Proofs.Token.Joined

/-! # Modules of texts side by side

The tokens of a text lie side by side with those of a longer one, whether other text comes after it or before it
(`run_alongside`). So the statements of two texts, one after the other, are those of the one and those of the
other (`ofText_append`). -/
namespace TypeWatch.Reading
set_option autoImplicit false

open Layout (State step walk run openLine closeLine finish)

/-! ## Layouts side by side -/

/-- Places go where another motion has them, but for the ends at the first place, where no token ends, and
literals stand for what they stood for. -/
structure Outlook.Agrees (o : Outlook) (μ : Motion) : Prop where
  plain : o.motion.Plain ∧ μ.Plain
  start : o.motion.start = μ.start
  stop : ∀ p, p ≠ .first → o.motion.stop p = μ.stop p

section Layouts

variable {o : Outlook} {μ : Motion}

theorem Outlook.Agrees.token (h : o.Agrees μ) {t : Token} (ht : t.span.stop ≠ .first) :
    t.moved μ = t.moved o.motion := by
  rw [h.plain.1.moved, h.plain.2.moved, Span.moved, Span.moved, h.start, h.stop _ ht]

/-- Blocks that are closed. -/
theorem alongside_dedents (is : List Nat) {t u : Token} (ht : t.kind = .dedent) (hu : u.kind = .dedent)
    {blocks depth : Nat} {ts us : List Token} (h : Alongside o false blocks depth ts us) :
    Alongside o false (is.length + blocks) depth (is.map (fun _ => t) ++ ts) (is.map (fun _ => u) ++ us) := by
  induction is with
  | nil => rwa [List.length_nil, Nat.zero_add]
  | cons i is ih =>
    rw [List.length_cons, Nat.add_right_comm]
    exact .closed ht hu ih

theorem openLine_alongside {s s' : State} {marks ts us : List Token} {depth : Nat} (hs : s.Sound)
    (h : openLine s = .ok (s', marks)) (hrest : Alongside o s.begun s'.indents.length depth ts us) :
    Alongside o s.begun s.indents.length depth (marks ++ ts) (marks.map (Token.moved μ) ++ us) := by
  cases hmargin : s.margin with
  | none =>
    rw [Layout.openLine_of_none hmargin] at h
    obtain ⟨rfl, rfl⟩ := Prod.mk.inj (Except.ok.inj h)
    exact hrest
  | some column =>
    have hbegun : s.begun = false := by
      refine Bool.eq_false_iff.mpr fun hbegun => ?_
      rw [hs.margin hbegun] at hmargin
      cases hmargin
    rw [hbegun] at hrest ⊢
    simp only [openLine, hmargin, Layout.closeBlocks_eq] at h
    split at h
    · obtain ⟨rfl, rfl⟩ := Prod.mk.inj (Except.ok.inj h)
      exact .opened rfl rfl hrest
    · split at h
      · obtain ⟨rfl, rfl⟩ := Prod.mk.inj (Except.ok.inj h)
        have hsplit := List.takeWhile_append_dropWhile (p := fun i => decide (column < i)) (l := s.indents)
        rw [List.map_map, ← hsplit, List.length_append, hsplit]
        exact alongside_dedents _ rfl rfl hrest
      · cases h

theorem closeLine_alongside (hagrees : o.Agrees μ) {s : State} (hs : s.Sound) {ts us : List Token} {blocks depth : Nat}
    (hrest : Alongside o false blocks depth ts us) :
    Alongside o s.begun blocks depth (closeLine s ++ ts) ((closeLine s).map (Token.moved μ) ++ us) := by
  unfold closeLine
  cases hbegun : s.begun with
  | false => exact hrest
  | true =>
    have hmoved := hagrees.token (t := Token.layout .newline s.position) (hs.position hbegun)
    simp only [if_true, List.map_cons, List.map_nil, List.cons_append, List.nil_append, hmoved]
    exact .newline rfl hrest

theorem step_alongside (hagrees : o.Agrees μ) {s s' : State} {piece : Piece} {tokens ts us : List Token}
    (hw : piece.WellFormed) (hs : s.Sound) (h : step s piece = .ok (s', tokens))
    (hrest : Alongside o s'.begun s'.indents.length s'.depth ts us) :
    Alongside o s.begun s.indents.length s.depth (tokens ++ ts) (tokens.map (Token.moved μ) ++ us) := by
  cases Layout.steps_of_step h with
  | lineEnd => exact closeLine_alongside hagrees hs hrest
  | joined | blanks | comment => exact hrest
  | continuation chars hopen =>
    obtain ⟨-, -, hbegun, hdepth⟩ := Layout.openLine_sound hs hopen
    refine openLine_alongside hs hopen ?_
    rw [← hbegun, ← hdepth]
    exact hrest
  | @token kind chars opened marks hopen =>
    obtain ⟨-, -, -, hdepth⟩ := Layout.openLine_sound hs hopen
    have hmoved := hagrees.token (t := ⟨kind, (⟨.token kind, chars⟩ : Piece).text,
      ⟨opened.position, opened.position.after chars⟩⟩) (Layout.ne_first_after _ hw.chars_ne)
    rw [List.append_assoc, List.map_append, List.append_assoc]
    refine openLine_alongside hs hopen ?_
    rw [List.map_cons, hmoved, ← hdepth]
    exact .token (hw.token kind rfl).1 (hagrees.plain.1.joins _ _ _ _) hrest

theorem walk_alongside (hagrees : o.Agrees μ) {s s' : State} {pieces : List Piece} {tokens ts us : List Token}
    (hw : ∀ p ∈ pieces, p.WellFormed) (hs : s.Sound) (h : walk s pieces = .ok (s', tokens))
    (hrest : Alongside o s'.begun s'.indents.length s'.depth ts us) :
    Alongside o s.begun s.indents.length s.depth (tokens ++ ts) (tokens.map (Token.moved μ) ++ us) := by
  induction pieces generalizing s tokens with
  | nil =>
    obtain ⟨rfl, rfl⟩ := Prod.mk.inj (Except.ok.inj h)
    exact hrest
  | cons piece pieces ih =>
    obtain ⟨hpiece, hpieces⟩ := List.forall_mem_cons.mp hw
    obtain ⟨s1, first, others, hstep, hwalk, rfl⟩ := Layout.walk_cons_ok h
    rw [List.append_assoc, List.map_append, List.append_assoc]
    exact step_alongside hagrees hpiece hs hstep (ih hpieces (Layout.step_sound hpiece hs hstep) hwalk)

end Layouts

/-! ## Streams of texts -/

/-- The tokens that a state leaves at the end of a text, but for the last one. -/
def closing (s : State) : List Token := closeLine s ++ s.indents.map fun _ => Token.layout .dedent s.position

/-- The token at the end of a text. -/
def stopAt (s : State) : Token := Token.layout .endOfInput s.position

theorem run_of_walk {pieces : List Piece} {s : State} {body : List Token}
    (h : walk .initial pieces = .ok (s, body)) :
    run .initial none pieces = .ok (body ++ closing s ++ [stopAt s]) := by
  rw [Layout.run_eq_walk, h, List.append_assoc]
  rfl

theorem ofTokens_ended {body : List Token} {stop : Token} (hstop : stop.kind = .endOfInput)
    (hbody : ∀ t ∈ body, t.kind ≠ .endOfInput) : Cursor.ofTokens (body ++ [stop]) = ⟨body, stop, .first⟩ := by
  have hrest := rest_ofTokens hstop hbody
  rw [Cursor.ofTokens] at hrest ⊢
  dsimp only at hrest ⊢
  rw [hrest, List.drop_left]
  rfl

/-- The stream of a text whose pieces give some tokens. -/
theorem ofText_of_run {source : String} (hwhole : (Piece.split source.toList).2 = none) {body : List Token}
    {stop : Token} (hrun : run .initial none (Piece.split source.toList).1 = .ok (body ++ [stop])) :
    Module.ofText source =
      (moduleStmts ⟨body, stop, .first⟩).map fun a => ⟨⟨.first, a.next.lastEnd⟩, a.value⟩ := by
  obtain ⟨body', stop', heq, hstop, hbody⟩ := Layout.run_ends (Piece.wellFormed_split source.toList) hrun
  obtain ⟨rfl, hlast⟩ := List.append_inj' heq rfl
  obtain rfl := List.singleton_injective hlast
  have htokens : tokenize source = .ok (body ++ [stop]) := by
    rw [← hrun, ← hwhole]
    rfl
  rw [Module.ofText, htokens]
  change Module.ofTokens (body ++ [stop]) = _
  rw [ofTokens_eq_map, ofTokens_ended hstop hbody]

/-- The stream of a text that is read. -/
theorem exists_of_ofText {source : String} {m : Module} (h : Module.ofText source = .ok m) :
    (Piece.split source.toList).2 = none ∧ ∃ s body a, walk .initial (Piece.split source.toList).1 = .ok (s, body) ∧
      moduleStmts ⟨body ++ closing s, stopAt s, .first⟩ = .ok a ∧ a.value = m.body := by
  obtain ⟨tokens, htokens, -⟩ := exists_of_bind_ok h
  have hwhole := (tokenize_content htokens).1
  have hrun : run .initial none (Piece.split source.toList).1 = .ok tokens := by
    rw [← htokens, ← hwhole]
    rfl
  refine ⟨hwhole, ?_⟩
  rw [Layout.run_eq_walk] at hrun
  cases hwalk : walk .initial (Piece.split source.toList).1 with
  | error e =>
    rw [hwalk] at hrun
    exact absurd hrun nofun
  | ok a =>
    obtain ⟨s, body⟩ := a
    rw [ofText_of_run hwhole (run_of_walk hwalk)] at h
    cases ha : moduleStmts ⟨body ++ closing s, stopAt s, .first⟩ with
    | error e =>
      rw [ha] at h
      exact absurd h nofun
    | ok a =>
      rw [ha] at h
      obtain rfl := Except.ok.inj h
      exact ⟨s, body, a, rfl, ha, rfl⟩

theorem moduleStmts_nil {stop : Token} (hstop : stop.kind = .endOfInput) (p : Position) :
    moduleStmts ⟨[], stop, p⟩ = .ok (.here [] _) := moduleStmts_of_ended hstop

theorem closing_alongside {o : Outlook} {μ : Motion} (hagrees : o.Agrees μ) {s : State} (hs : s.Sound)
    (hdepth : s.depth = o.depth) {u : Token} (hu : u.kind = .dedent) :
    Alongside o s.begun s.indents.length s.depth (closing s)
      ((closeLine s).map (Token.moved μ) ++ (s.indents.map (fun _ => u) ++ o.tail)) := by
  have hend : Alongside o false 0 s.depth [] o.tail := hdepth ▸ .ended
  have hclosed := alongside_dedents s.indents (t := Token.layout .dedent s.position) rfl hu hend
  rw [List.append_nil] at hclosed
  exact closeLine_alongside hagrees hs hclosed

/-- No bracket is open at the end of a text that is read. -/
theorem depth_of_reads {pieces : List Piece} {s : State} {body : List Token} (hw : ∀ p ∈ pieces, p.WellFormed)
    (h : walk .initial pieces = .ok (s, body)) {a : Moved (List Stmt) ⟨body ++ closing s, stopAt s, .first⟩}
    (ha : moduleStmts ⟨body ++ closing s, stopAt s, .first⟩ = .ok a) : s.depth = 0 := by
  let o : Outlook := ⟨.still, s.depth, [], stopAt s⟩
  have hagrees : o.Agrees .still := ⟨⟨Motion.plain_still, Motion.plain_still⟩, rfl, fun _ _ => rfl⟩
  have hsound := (Layout.walk_sound hw Layout.sound_initial h).1
  have hlast := closing_alongside hagrees hsound rfl (u := Token.layout .dedent s.position) rfl
  have hrest := walk_alongside hagrees hw Layout.sound_initial h hlast
  rw [Token.map_still, Token.map_still, List.append_nil] at hrest
  have hbeside : Beside o false 0 0 ⟨body ++ closing s, stopAt s, .first⟩ ⟨body ++ closing s, stopAt s, .first⟩ :=
    ⟨hrest, rfl, rfl, rfl⟩
  have hfresh : o.Fresh := fun t ht => absurd ht (Option.not_mem_none t)
  obtain ⟨-, -, hdepth, -⟩ := moduleStmts_matches hfresh (fun p => ⟨_, moduleStmts_nil rfl p⟩) hbeside a ha
  exact hdepth.symm

/-- A text is read behind other text as it is read alone. -/
theorem moduleStmts_behind (before : List Char) {pieces : List Piece} {s : State} {body : List Token}
    (hw : ∀ p ∈ pieces, p.WellFormed) (h : walk .initial pieces = .ok (s, body))
    {b : Moved (List Stmt) ⟨body ++ closing s, stopAt s, .first⟩}
    (hb : moduleStmts ⟨body ++ closing s, stopAt s, .first⟩ = .ok b) (p : Position) :
    ∃ e, moduleStmts ⟨(body ++ closing s).map (Token.moved (.later before)), (stopAt s).moved (.later before), p⟩ = .ok e ∧
      e.value = b.value.map (Stmt.moved (.behind before p)) := by
  let o : Outlook := ⟨.behind before p, s.depth, [], (stopAt s).moved (.later before)⟩
  have hagrees : o.Agrees (.later before) :=
    ⟨⟨Motion.plain_behind before p, Motion.plain_later before⟩, rfl, fun q hq => if_neg hq⟩
  have hsound := (Layout.walk_sound hw Layout.sound_initial h).1
  have hlast := closing_alongside hagrees hsound rfl
    (u := (Token.layout .dedent s.position).moved (.later before)) rfl
  have hrest := walk_alongside hagrees hw Layout.sound_initial h hlast
  have hmoved : body.map (Token.moved (.later before)) ++ ((closeLine s).map (Token.moved (.later before)) ++
      (s.indents.map (fun _ => (Token.layout .dedent s.position).moved (.later before)) ++ [])) =
        (body ++ closing s).map (Token.moved (.later before)) := by
    simp only [closing, List.map_append, List.map_map, List.append_nil]
    rfl
  rw [hmoved] at hrest
  have hfresh : o.Fresh := fun t ht => absurd ht (Option.not_mem_none t)
  have hbeside : Beside o false 0 0 ⟨body ++ closing s, stopAt s, .first⟩
      ⟨(body ++ closing s).map (Token.moved (.later before)), (stopAt s).moved (.later before), p⟩ :=
    ⟨hrest, rfl, rfl, rfl⟩
  obtain ⟨e, he, -, e', he', hvalue, -⟩ :=
    moduleStmts_matches hfresh (fun p => ⟨_, moduleStmts_nil rfl p⟩) hbeside b hb
  obtain rfl := Except.ok.inj ((moduleStmts_nil rfl _).symm.trans he')
  exact ⟨e, he, hvalue.trans (List.append_nil _)⟩

/-! ## Texts -/

/-- Whether a text is empty or ends with a line break that counts. -/
def EndsLines (source : String) : Prop :=
  source = "" ∨ source.toList.getLast? = some '\n' ∧
    (Piece.split source.toList).1.getLast?.map Piece.lexeme ≠ some .continuation

instance (source : String) : Decidable (EndsLines source) :=
  inferInstanceAs (Decidable (source = "" ∨ source.toList.getLast? = some '\n' ∧
    (Piece.split source.toList).1.getLast?.map Piece.lexeme ≠ some .continuation))

example : EndsLines "x # y\n" ∧ ¬EndsLines "x \\\n" := by decide +kernel

theorem EndsLines.feed {source : String} (h : EndsLines source) : ∀ c ∈ source.toList.getLast?, c = '\n' := by
  rcases h with rfl | ⟨hlast, -⟩
  · exact nofun
  · exact fun c hc => (Option.some.inj (hlast.symm.trans hc)).symm

/-- A piece with a line feed at its end is a line break, if it is none that does not count. -/
theorem lineBreak_of_feed {p : Piece} (hw : p.WellFormed) (hshaped : p.Shaped)
    (hlast : p.chars.getLast? = some '\n') (hcounts : p.lexeme ≠ .continuation) : p.lexeme = .lineBreak := by
  have hno {q : Char → Bool} {cs : List Char} (hall : ∀ c ∈ cs, q c = true) (hq : q '\n' = false)
      (hlast : cs.getLast? = some '\n') : False := by
    rw [hall _ (List.mem_of_getLast? hlast)] at hq
    exact absurd hq nofun
  cases hshaped with
  | lineBreak => rfl
  | continuation => exact absurd rfl hcounts
  | blanks hc hcs => exact (hno (List.forall_mem_cons.mpr ⟨hc, hcs⟩) rfl hlast).elim
  | @comment cs hcs =>
    cases cs with
    | nil => exact absurd hlast (by decide)
    | cons c cs => exact (hno hcs rfl hlast).elim
  | token =>
    obtain ⟨-, d, hd, hne⟩ := hw.token _ rfl
    exact absurd (Option.some.inj (hd.symm.trans hlast)) hne

/-- Where a text ends with a line, all that it leaves behind are its open blocks. -/
theorem walk_ends {source : String} (hends : EndsLines source) (hwhole : (Piece.split source.toList).2 = none)
    {s : State} {body : List Token} (h : walk .initial (Piece.split source.toList).1 = .ok (s, body))
    (hdepth : s.depth = 0) : s = State.initial.below source.toList s.indents := by
  have hformed := Piece.wellFormed_split source.toList
  obtain ⟨rest, htext, hrest⟩ := Piece.split_prefix source.toList
  rw [hrest hwhole, List.append_nil] at htext
  have hposition : s.position = Position.first.after source.toList := by
    rw [(Layout.walk_sound hformed Layout.sound_initial h).2, htext]
    rfl
  have hline : s.begun = false ∧ s.margin = some 0 := by
    rcases hends with rfl | ⟨hfeed, hcounts⟩
    · have hnone : (Piece.split "".toList).1 = [] := by rw [String.toList_empty, Piece.split]
      rw [hnone] at h
      obtain ⟨rfl, -⟩ := Prod.mk.inj (Except.ok.inj h)
      exact ⟨rfl, rfl⟩
    · obtain hnone | ⟨before, q, hpieces⟩ := List.eq_nil_or_concat' (Piece.split source.toList).1
      · rw [hnone, List.flatMap_nil] at htext
        rw [← htext] at hfeed
        cases hfeed
      have hlast : (Piece.split source.toList).1.getLast? = some q := by rw [hpieces, List.getLast?_concat]
      have hmem := List.mem_of_getLast? hlast
      have hchars : q.chars.getLast? = some '\n' := by
        rw [← htext, hpieces, List.flatMap_append, List.flatMap_singleton, List.getLast?_append_of_ne_nil _ (hformed q hmem).chars_ne] at hfeed
        exact hfeed
      rw [hlast, Option.map_some] at hcounts
      have hbreak := lineBreak_of_feed (hformed q hmem) (Piece.shaped_split _ q hmem) hchars fun hc => hcounts (congrArg some hc)
      exact Layout.walk_atLineStart h hlast hbreak hdepth
  obtain ⟨position, depth, indents, margin, begun⟩ := s
  obtain ⟨rfl, rfl⟩ := hline
  obtain rfl : depth = 0 := hdepth
  obtain rfl : position = _ := hposition
  rfl

/-- Pieces behind a text that ends with a line. The blocks that are open there are closed before their tokens. -/
theorem run_joined {before : List Char} {pieces more : List Piece} {left right : State} {body body' : List Token}
    (hw : ∀ p ∈ pieces, p.WellFormed) (hchain : more.IsChain Piece.Parts)
    (h : walk .initial pieces = .ok (left, body)) (hleft : left = State.initial.below before left.indents)
    (h' : walk .initial more = .ok (right, body'))
    (hfirst : ∀ t ∈ (body' ++ closing right ++ [stopAt right]).head?, t.kind ≠ .indent) :
    ∃ p, run .initial none (pieces ++ more) =
      .ok (body ++ (left.indents.map (fun _ => Token.layout .dedent p) ++
        (body' ++ closing right).map (Token.moved (.later before))) ++ [(stopAt right).moved (.later before)]) := by
  have hindents := (Layout.walk_sound hw Layout.sound_initial h).1.indents
  have houter : State.initial.Outermost more := ⟨rfl, rfl, rfl, nofun⟩
  obtain ⟨p, hrun⟩ := Layout.run_belowBlocks before houter hchain hindents (run_of_walk h') hfirst
  refine ⟨p, ?_⟩
  rw [Layout.run_append, h]
  change (run left none more).map (body ++ ·) = _
  rw [hleft, hrun]
  simp only [Except.map, List.map_append, List.map_cons, List.map_nil, List.append_assoc]
  rfl

/-- The tokens of a text that ends with a line lie side by side with those of a longer one. -/
theorem beside_joined {before : List Char} {pieces : List Piece} {s : State} {body : List Token}
    (hw : ∀ p ∈ pieces, p.WellFormed) (h : walk .initial pieces = .ok (s, body))
    (hends : s = State.initial.below before s.indents) (p : Position) (tail : List Token) (stop : Token) :
    Beside ⟨.still, 0, tail, stop⟩ false 0 0 ⟨body ++ closing s, stopAt s, .first⟩
      ⟨body ++ (s.indents.map (fun _ => Token.layout .dedent p) ++ tail), stop, .first⟩ := by
  let o : Outlook := ⟨.still, 0, tail, stop⟩
  have hagrees : o.Agrees .still := ⟨⟨Motion.plain_still, Motion.plain_still⟩, rfl, fun _ _ => rfl⟩
  have hsound := (Layout.walk_sound hw Layout.sound_initial h).1
  have hdepth : s.depth = 0 := by rw [hends]; rfl
  have hclose : closeLine s = [] := by rw [hends]; rfl
  have hlast := closing_alongside hagrees hsound hdepth (u := Token.layout .dedent p) rfl
  have hrest := walk_alongside hagrees hw Layout.sound_initial h hlast
  rw [Token.map_still, hclose] at hrest
  exact ⟨hrest, rfl, rfl, rfl⟩

theorem kind_of_first {ts : List Token} {stop t : Token} (ht : t ∈ (ts ++ [stop]).head?) (p : Position) :
    (⟨ts, stop, p⟩ : Cursor).kind = t.kind := by
  cases ts with
  | nil =>
    obtain rfl := Option.some.inj ht
    rfl
  | cons u us =>
    obtain rfl := Option.some.inj ht
    rfl

/-- The statements of two texts one after the other, where no line and no string literal of the first one goes on
in the second one. -/
theorem ofText_append {s t : String} {a b : Module} (ha : Module.ofText s = .ok a) (hb : Module.ofText t = .ok b)
    (hends : EndsLines s) (hclosed : Piece.QuotesClosed (Piece.split s.toList).1) :
    ∃ m p, Module.ofText (s ++ t) = .ok m ∧
      m.body = a.body.map (Stmt.moved .still) ++ b.body.map (Stmt.moved (.behind s.toList p)) := by
  obtain ⟨hwhole, left, body, x, hwalk, hx, hxbody⟩ := exists_of_ofText ha
  obtain ⟨hwhole', right, body', y, hwalk', hy, hybody⟩ := exists_of_ofText hb
  have hformed := Piece.wellFormed_split s.toList
  have hleft := walk_ends hends hwhole hwalk (depth_of_reads hformed hwalk hx)
  obtain ⟨hbegins, hindent⟩ := moduleStmts_begins hy
  -- the tokens of both texts
  have hsplit := Piece.split_append hends.feed hwhole hclosed t.toList
  have hfirst : ∀ u ∈ (body' ++ closing right ++ [stopAt right]).head?, u.kind ≠ .indent :=
    fun u hu => kind_of_first hu .first ▸ hindent
  obtain ⟨p, hrun⟩ := run_joined hformed (Piece.isChain_split t.toList) hwalk hleft hwalk' hfirst
  have hjoint : (Piece.split (s ++ t).toList).2 = none := by
    rw [String.toList_append, hsplit]
    exact hwhole'
  have hread := ofText_of_run hjoint (by rw [String.toList_append, hsplit]; exact hrun)
  -- what is read on them
  let tail := (body' ++ closing right).map (Token.moved (.later s.toList))
  let stop := (stopAt right).moved (.later s.toList)
  have hfresh : Outlook.Fresh ⟨.still, 0, tail, stop⟩ := by
    intro u hu
    obtain ⟨v, hv, rfl⟩ := Option.map_eq_some_iff.mp (List.head?_map.symm.trans hu)
    have hkind := kind_of_first (List.mem_head?_append_of_mem_head? hv : v ∈ (_ ++ [stopAt right]).head?) .first
    exact hkind ▸ hbegins
  have htail (q : Position) := moduleStmts_behind s.toList (Piece.wellFormed_split t.toList) hwalk' hy q
  obtain ⟨e, he, -, e', he', hvalue, -⟩ := moduleStmts_matches hfresh (fun q => (htail q).imp fun _ h => h.1)
    (beside_joined hformed hwalk hleft p tail stop) x hx
  obtain ⟨e'', he'', hbehind⟩ := htail x.next.lastEnd
  obtain rfl := Except.ok.inj (he'.symm.trans he'')
  refine ⟨⟨⟨.first, e.next.lastEnd⟩, e.value⟩, x.next.lastEnd, ?_, ?_⟩
  · rw [hread, he]
    rfl
  · rw [hvalue, hbehind, hxbody, hybody]

end TypeWatch.Reading
