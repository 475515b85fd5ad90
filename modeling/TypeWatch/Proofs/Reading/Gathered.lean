import TypeWatch.Proofs.Lexeme.Shorter
import TypeWatch.Proofs.Reading.Joined
import TypeWatch.Proofs.Syntax.Fixed
import TypeWatch.Proofs.Token.Gathered

/-! # Readers of tokens whose literals have other texts

The tokens of a text lie side by side with those of the same kinds that stand where a motion takes them, whatever
their string literals stand for (`Alongside.gathering`). Hence an expression that is read has in each string
constant the texts of all the literals in the stretch of the constant (`ofText_gathered`). -/
namespace TypeWatch.Reading
set_option autoImplicit false

open Layout (closeLine walk run proper tokensFrom tokenAt?)
open Token (Ordered gathered gathered_append gathered_cons)

/-! ## Streams -/

/-- Tokens that lie beside some others lie beside themselves, moved, if the motion gathers the texts of literals. -/
theorem Alongside.gathering {ν μ : Motion} {n : Nat} {last : Token} {begun : Bool} {blocks depth : Nat}
    {all ts us : List Token} (h : Alongside ⟨ν, n, [], last⟩ begun blocks depth ts us) (hμ : μ.Gathers all)
    (hordered : Ordered (all.map (Token.moved μ))) {before : List Token} (hall : all = before ++ ts) (stop : Token) :
    Alongside ⟨μ, n, [], stop⟩ begun blocks depth ts (ts.map (Token.moved μ)) := by
  induction h generalizing before with
  | ended => exact .ended
  | opened ht _ _ ih => exact .opened ht ht (ih (hall.trans (List.append_cons _ _ _)))
  | closed ht _ _ ih => exact .closed ht ht (ih (hall.trans (List.append_cons _ _ _)))
  | token hno _ _ ih =>
    subst hall
    exact .token hno (hμ.joins hordered _ (Position.le_refl _)) (ih (List.append_cons _ _ _))
  | newline ht _ ih => exact .newline ht (ih (hall.trans (List.append_cons _ _ _)))

/-- The tokens of a text, but for the last one, lie beside themselves. -/
theorem alongside_self {source : String} {tokens : List Token} (h : tokenize source = .ok tokens) :
    ∃ body stop depth, tokens = body ++ [stop] ∧ Cursor.ofTokens tokens = ⟨body, stop, .first⟩ ∧ Ordered body ∧
      stop.kind = .endOfInput ∧ Alongside ⟨.still, depth, [], stop⟩ false 0 0 body body := by
  have hwhole := (tokenize_content h).1
  have hformed := Piece.wellFormed_split source.toList
  have hrun : run .initial none (Piece.split source.toList).1 = .ok tokens := by
    rw [← h, ← hwhole]
    rfl
  obtain ⟨⟨s, body⟩, hwalk, -⟩ : ∃ a, walk .initial (Piece.split source.toList).1 = .ok a ∧ True := by
    rw [Layout.run_eq_walk] at hrun
    cases hwalk : walk .initial (Piece.split source.toList).1 with
    | ok a => exact ⟨a, rfl, trivial⟩
    | error e =>
      rw [hwalk] at hrun
      exact absurd hrun nofun
  obtain rfl := Except.ok.inj (hrun.symm.trans (run_of_walk hwalk))
  have hbody : ∀ t ∈ body ++ closing s, t.kind ≠ .endOfInput := by
    obtain ⟨body', stop', heq, -, hbody⟩ := Layout.run_ends hformed hrun
    obtain ⟨rfl, -⟩ := List.append_inj' heq rfl
    exact hbody
  have hplaced := (tokenize_placed h).inOrder
  have hordered : Ordered (body ++ closing s) :=
    ⟨(List.pairwise_append.mp hplaced.ordered).1, fun t ht => hplaced.proper t (List.mem_append_left _ ht)⟩
  refine ⟨body ++ closing s, stopAt s, s.depth, rfl, ofTokens_ended rfl hbody, hordered, rfl, ?_⟩
  let o : Outlook := ⟨.still, s.depth, [], stopAt s⟩
  have hagrees : o.Agrees .still := ⟨⟨Motion.plain_still, Motion.plain_still⟩, rfl, fun _ _ => rfl⟩
  have hsound := (Layout.walk_sound hformed Layout.sound_initial hwalk).1
  have hlast := closing_alongside hagrees hsound rfl (u := Token.layout .dedent s.position) rfl
  have hrest := walk_alongside hagrees hformed Layout.sound_initial hwalk hlast
  rwa [Token.map_still, Token.map_still, List.append_nil] at hrest

theorem gathering_concat (start stop : Position → Position) {last : Token} (hlast : last.kind.isString = false)
    (body : List Token) : Motion.gathering start stop (body ++ [last]) = .gathering start stop body := by
  have hnone (s : Span) : gathered [last] s = "" :=
    Token.gathered_eq_empty (List.forall_mem_singleton.mpr fun hstring =>
      absurd (hlast.symm.trans hstring) (by rintro ⟨⟩))
  have hsame : gathered (body ++ [last]) = gathered body := by
    funext s
    rw [gathered_append, hnone, String.append_empty]
  rw [Motion.gathering, Motion.gathering, hsame]

/-- Texts whose tokens answer each other are read side by side. -/
theorem beside_gathering {source source' : String} {ts us : List Token} {start stop : Position → Position}
    (h : tokenize source = .ok ts) (h' : tokenize source' = .ok us)
    (hall : List.Forall₂ (Token.Answers start stop) ts us) (hfirst : stop .first = .first) :
    ∃ depth last, last.kind = .endOfInput ∧
      Beside ⟨.gathering start stop us, depth, [], last⟩ false 0 0 (Cursor.ofTokens ts) (Cursor.ofTokens us) := by
  obtain ⟨body, last, depth, rfl, hcursor, -, hlast, hself⟩ := alongside_self h
  obtain ⟨body', last', -, rfl, hcursor', hordered, hlast', -⟩ := alongside_self h'
  have hbody : List.Forall₂ (Token.Answers start stop) body body' := by
    have hlength : body.length = body'.length := by
      have hboth := hall.length_eq
      simp only [List.length_append, List.length_singleton] at hboth
      omega
    have htake := List.forall₂_take body.length hall
    rwa [List.take_left, hlength, List.take_left] at htake
  have hmap := Motion.map_gathering hordered hbody fun _ hu => hu
  have hgathers := Motion.gathers_gathering hordered hbody
  have hrest := hself.gathering hgathers (hmap.symm ▸ hordered) (List.nil_append body).symm last'
  rw [hmap] at hrest
  refine ⟨depth, last', hlast', ?_⟩
  rw [gathering_concat start stop (by rw [hlast']; rfl), hcursor, hcursor']
  exact ⟨hrest, hlast, rfl, hfirst.symm⟩

/-- The motion that leaves places as they are and takes the texts of stretches from some tokens. -/
def gatheringAt (tokens : List Token) : Motion := .gathering id id tokens

theorem answers_self (tokens : List Token) : List.Forall₂ (Token.Answers id id) tokens tokens :=
  List.forall₂_same.mpr fun _ _ => ⟨rfl, rfl, fun _ => rfl⟩

theorem beside_gatheringAt {source : String} {tokens : List Token} (h : tokenize source = .ok tokens) :
    ∃ depth last, last.kind = .endOfInput ∧
      Beside ⟨gatheringAt tokens, depth, [], last⟩ false 0 0 (Cursor.ofTokens tokens) (Cursor.ofTokens tokens) :=
  beside_gathering h h (answers_self tokens) rfl

/-! ## Modules -/

/-- A text whose tokens answer those of another one has the statements of that, moved. -/
theorem ofText_gathering {source source' : String} {ts us : List Token} {start stop : Position → Position}
    (h : tokenize source = .ok ts) (h' : tokenize source' = .ok us)
    (hall : List.Forall₂ (Token.Answers start stop) ts us) (hfirst : stop .first = .first) {m : Module}
    (hm : Module.ofText source = .ok m) :
    ∃ m', Module.ofText source' = .ok m' ∧ m'.body = m.body.map (Stmt.moved (.gathering start stop us)) := by
  obtain ⟨depth, last, hlast, hbeside⟩ := beside_gathering h h' hall hfirst
  have hfresh : Outlook.Fresh ⟨.gathering start stop us, depth, [], last⟩ := fun t ht =>
    absurd ht (Option.not_mem_none t)
  have hmodule : Module.ofText source = Module.ofTokens ts := by rw [Module.ofText, h]; rfl
  have hmodule' : Module.ofText source' = Module.ofTokens us := by rw [Module.ofText, h']; rfl
  rw [hmodule, ofTokens_eq_map] at hm
  rw [hmodule', ofTokens_eq_map]
  cases ha : moduleStmts (Cursor.ofTokens ts) with
  | error e =>
    rw [ha] at hm
    cases hm
  | ok a =>
    rw [ha] at hm
    obtain rfl := Except.ok.inj hm
    obtain ⟨b, hb, -, e, he, hvalue, -⟩ :=
      moduleStmts_matches hfresh (fun p => ⟨_, moduleStmts_nil hlast p⟩) hbeside a ha
    obtain rfl := Except.ok.inj ((moduleStmts_nil hlast _).symm.trans he)
    rw [hb]
    exact ⟨_, rfl, hvalue.trans (List.append_nil _)⟩

/-- The string constants of a module that is read have the texts of all the literals in their stretches. -/
theorem keeps_ofText {source : String} {tokens : List Token} (h : tokenize source = .ok tokens) {m : Module}
    (hm : Module.ofText source = .ok m) : ∀ s ∈ m.body, Node.Keeps (gatheringAt tokens) (.stmt s) := by
  obtain ⟨m', hm', hbody⟩ := ofText_gathering h h (answers_self tokens) rfl hm
  obtain rfl := Except.ok.inj (hm.symm.trans hm')
  intro s hs
  exact Node.keeps_of_fixed (congrArg Node.stmt (List.map_inj_left.mp (hbody.symm.trans (List.map_id _).symm) s hs))

/-! ## Expressions -/

/-- A layout token is no operand. -/
theorem operandAfter_noLayout {n : Nat} {sub : Below n} {t : Token} {c : Cursor} {h : c.size < n}
    {a : Moved Expr c} (ha : operandAfter sub t c h = .ok a) : t.kind.isLayout = false := by
  rw [Bool.eq_false_iff]
  intro hlayout
  have hkind : t.kind = .endOfInput ∨ t.kind = .newline ∨ t.kind = .indent ∨ t.kind = .dedent := by
    cases hk : t.kind <;> simp_all [TokenKind.isLayout]
  unfold operandAfter at ha
  rcases hkind with hkind | hkind | hkind | hkind <;> simp [hkind, UnaryOp.ofToken?] at ha

/-- An expression begins with a token that is no layout. -/
theorem expr_noLayout {level : Power} {c : Cursor} {a : Advanced Expr c} (h : expr level c = .ok a) :
    c.kind.isLayout = false := by
  rw [expr] at h
  obtain ⟨left, hleft, -⟩ := exists_of_bind_ok h
  unfold operand at hleft
  split at hleft
  · exact absurd hleft nofun
  · rename_i t c1 h1 hnext
    rw [kind_of_next? hnext]
    rw [MayRead.since] at hleft
    cases hafter : operandAfter (fun l c' (_ : c'.size < c.size) => expr l c') t c1 h1 with
    | ok b => exact operandAfter_noLayout hafter
    | error e =>
      rw [hafter] at hleft
      exact absurd hleft nofun

/-- A string constant of an expression that is read has the texts of all the literals in its stretch. -/
theorem ofText_gathered {text : String} {e : Expr} (h : Expr.ofText text = .ok e) :
    ∃ tokens, tokenize (Text.trimmed text) = .ok tokens ∧ Node.Keeps (gatheringAt tokens) (.expr e) := by
  obtain ⟨tokens, htokens, h⟩ := exists_of_bind_ok h
  obtain ⟨depth, last, -, hbeside⟩ := beside_gatheringAt htokens
  obtain ⟨⟨e', d, hlt⟩, hread, h⟩ := exists_of_bind_ok h
  have he : e' = e := by
    dsimp only at h
    split at h
    · exact Except.ok.inj h
    · exact absurd h nofun
  subst he
  refine ⟨_, htokens, Node.keeps_of_fixed ?_⟩
  obtain ⟨left, hleft, -⟩ := exists_of_bind_ok hread
  have hbegun := hbeside.begun (expr_noLayout hleft)
  obtain ⟨b, hb, hvalue, -⟩ := exprList_matches (keepsExprs_exprBelow _ _ _) .least hbegun
    (Cursor.size_below _) (Cursor.size_below _) _ hread
  obtain rfl := Except.ok.inj (hread.symm.trans hb)
  exact congrArg Node.expr hvalue.symm

/-! ## Sizes -/

theorem gathered_proper (tokens : List Token) (s : Span) : gathered (proper tokens) s = gathered tokens s := by
  have hfilter : (proper tokens).filter (fun t => t.kind.isString && decide (s.Holds t)) =
      tokens.filter fun t => t.kind.isString && decide (s.Holds t) := by
    rw [proper, List.filter_filter]
    refine List.filter_congr fun t _ => ?_
    cases hstring : t.kind.isString with
    | true => simp [TokenKind.isLayout_of_isString hstring]
    | false => simp
  rw [gathered, hfilter, gathered]

/-- What the literals in a stretch stand for is shorter than the text in which they stand. -/
theorem size_gathered_tokensFrom {pieces : List Piece}
    (hspells : ∀ p ∈ pieces, ∀ kind, p.lexeme = .token kind → Lexeme.Spells kind p.chars) (p : Position) (s : Span) :
    gathered (tokensFrom p pieces) s = "" ∨
      (gathered (tokensFrom p pieces) s).utf8ByteSize < Text.byteLength (pieces.flatMap Piece.chars) := by
  induction pieces generalizing p with
  | nil => exact Or.inl rfl
  | cons piece pieces ih =>
    obtain ⟨hpiece, hpieces⟩ := List.forall_mem_cons.mp hspells
    have hfirst : gathered (tokenAt? p piece).toList s = "" ∨
        (gathered (tokenAt? p piece).toList s).utf8ByteSize < Text.byteLength piece.chars := by
      obtain ⟨lexeme, chars⟩ := piece
      cases lexeme with
      | token kind =>
        rw [tokenAt?, Option.toList_some, gathered_cons]
        split
        · rename_i hboth
          have hsize := Lexeme.byteLength_literalText ((hpiece kind rfl).literal hboth.1)
          have htext : (⟨.token kind, chars⟩ : Piece).text = String.ofList (Lexeme.literalText chars) := by
            have hstring : kind.isString = true := hboth.1
            simp only [Piece.text, hstring, if_true]
          refine Or.inr ?_
          have hnone : gathered [] s = "" := rfl
          rw [htext, hnone, String.append_empty, ← Text.byteLength_toList, String.toList_ofList]
          exact Nat.lt_of_lt_of_le (Nat.lt_add_of_pos_right (by decide : 0 < 2)) hsize
        · exact Or.inl rfl
      | _ => exact Or.inl rfl
    rw [tokensFrom, gathered_append, List.flatMap_cons, Text.byteLength_append, String.utf8ByteSize_append]
    rcases hfirst with hfirst | hfirst <;> rcases ih hpieces (p.after piece.chars) with hrest | hrest
    · exact Or.inl (by rw [hfirst, hrest]; rfl)
    · rw [hfirst]
      exact Or.inr (by simp only [String.utf8ByteSize_empty]; omega)
    · rw [hrest]
      exact Or.inr (by simp only [String.utf8ByteSize_empty]; omega)
    · exact Or.inr (by omega)

theorem size_gathered {source : String} {tokens : List Token} (h : tokenize source = .ok tokens) (s : Span) :
    gathered tokens s = "" ∨ (gathered tokens s).utf8ByteSize < source.utf8ByteSize := by
  obtain ⟨-, hproper⟩ := Layout.run_proper (Piece.wellFormed_split source.toList) h
  obtain ⟨rest, htext, -⟩ := Piece.split_prefix source.toList
  have hlength := congrArg Text.byteLength htext
  rw [Text.byteLength_append, Text.byteLength_toList] at hlength
  rw [← gathered_proper, hproper]
  refine (size_gathered_tokensFrom (Piece.spells_of_split source.toList) _ s).imp_right fun hlt => ?_
  omega

end TypeWatch.Reading

namespace TypeWatch

/-- The text of a string constant, of whatever kind. -/
def Constant.text? : Constant → Option String
  | .string text | .bytes text | .formatString text => some text
  | _ => none

/-- A string constant of a text that is read, wherever it stands and of however many literals it is made, is
shorter than the text. -/
theorem Expr.size_lt_of_ofText {text : String} {e : Expr} (h : ofText text = .ok e) {s : Span} {value : Constant}
    (hin : (Node.expr e).Has (.expr (.constant s value))) {inner : String} (hinner : value.text? = some inner) :
    inner.utf8ByteSize < text.utf8ByteSize := by
  obtain ⟨tokens, htokens, hkeeps⟩ := Reading.ofText_gathered h
  have hvalue := hkeeps s value hin
  have htext : Token.gathered tokens s = inner := by
    cases value with
    | string | bytes | formatString =>
      injection hvalue with hvalue
      exact hvalue.trans (Option.some.inj hinner)
    | _ => exact absurd hinner nofun
  have hpos : 0 < text.utf8ByteSize := by
    refine Nat.pos_of_ne_zero fun hzero => ?_
    obtain rfl := String.utf8ByteSize_eq_zero_iff.mp hzero
    have hempty : (ofText "").isOk = false := by decide +kernel
    rw [h] at hempty
    exact absurd hempty nofun
  rcases Reading.size_gathered htokens s with hnone | hlt
  · rw [← htext, hnone]
    exact hpos
  · rw [← htext]
    exact Nat.lt_of_lt_of_le hlt (Lexeme.size_trimmed text)

end TypeWatch
