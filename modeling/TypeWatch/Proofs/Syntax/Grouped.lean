import TypeWatch.Proofs.Syntax.WrittenEdges

/-! # Trees of operators with the parentheses that they need

An operand is put in parentheses if its outermost operator binds too loosely for the place where the operand
stands (`Expr.grouped`). The words of a tree are set apart by blanks (`Spaced`). -/
namespace TypeWatch
set_option autoImplicit false

/-! ## Places of operands -/

namespace BinaryOp

/-- How tightly the outermost operator of a left operand must bind. Operators of one power group to the
left, except for powers, before which no sign may stand either. -/
def leftRank (op : BinaryOp) : Nat := if op = power then Power.await.rank else op.binds.rank

/-- How tightly the outermost operator of a right operand must bind. A sign may stand before the right
operand of a power, and so may a power. -/
def rightRank (op : BinaryOp) : Nat := if op = power then Power.sign.rank else op.binds.rank + 1

end BinaryOp

namespace Expr

/-- How tightly the outermost operator binds. -/
def level : Expr → Power
  | binary _ _ op _ => op.binds
  | unary _ op _ => op.binds
  | await _ _ => .await
  | conditional _ _ _ _ | lambda _ _ _ => .conditional
  | _ => .trailer

/-- The words of an operand, in parentheses if its outermost operator binds more loosely than the place
allows. -/
def held (rank : Nat) (e : Expr) (ws : List Word) : List Word :=
  if e.level.rank < rank then opWord .openParen :: (ws ++ [opWord .closeParen]) else ws

mutual

/-- Whether a tree is built from names by operators with two operands or one, conditionals, lambdas
without parameters, attributes, calls with positional arguments and subscripts with one index. -/
def Operative : Expr → Prop
  | name _ id => IsName id
  | member _ value attr => value.Operative ∧ IsName attr
  | subscript _ value index => value.Operative ∧ index.Operative
  | call _ callee arguments => callee.Operative ∧ operativeList arguments
  | binary _ left _ right => left.Operative ∧ right.Operative
  | unary _ _ operand => operand.Operative
  | await _ value => value.Operative
  | lambda _ parameters body => parameters = [] ∧ body.Operative
  | conditional _ test body orelse => test.Operative ∧ body.Operative ∧ orelse.Operative
  | _ => False

def operativeList : List Expr → Prop
  | [] => True
  | e :: es => e.Operative ∧ operativeList es

end

mutual

/-- The words of a tree of operators with the parentheses that it needs. -/
def grouped : Expr → List Word
  | name _ id => [(.name, id)]
  | member _ value attr => held Power.trailer.rank value value.grouped ++ [opWord .dot, (.name, attr)]
  | subscript _ value index =>
    held Power.trailer.rank value value.grouped ++ opWord .openBracket :: (index.grouped ++ [opWord .closeBracket])
  | call _ callee arguments =>
    held Power.trailer.rank callee callee.grouped ++
      opWord .openParen :: (commaBetween (groupedList arguments) ++ [opWord .closeParen])
  | binary _ left op right =>
    held op.leftRank left left.grouped ++ (op.words ++ held op.rightRank right right.grouped)
  | unary _ op operand => op.word :: held op.binds.rank operand operand.grouped
  | await _ value => keyWord .kwAwait :: held Power.await.rank value value.grouped
  | lambda _ _ body => keyWord .kwLambda :: opWord .colon :: body.grouped
  | conditional _ test body orelse =>
    held Power.disjunction.rank body body.grouped ++
      keyWord .kwIf :: (held Power.disjunction.rank test test.grouped ++ keyWord .kwElse :: orelse.grouped)
  | _ => []

def groupedList : List Expr → List (List Word)
  | [] => []
  | e :: es => e.grouped :: groupedList es

end

end Expr

/-! ## Words without quotes -/

/-- A word whose text is what it is written as. -/
inductive Unquoted : Word → Prop
  | name {id : String} : IsName id → Unquoted (.name, id)
  | reserved (k : Keyword) : Unquoted (keyWord k)
  | sign (o : Operator) : Unquoted (opWord o)

namespace Unquoted

variable {w : Word}

/-- The first character begins a word, and no blank is one of it. -/
theorem opens (h : Unquoted w) : ∃ c cs, w.2.toList = c :: cs ∧ Lexeme.startsToken c = true ∧
    Text.isBlank c = false := by
  have hword {c : Char} (hopen : Text.opensName c = true) : Lexeme.startsToken c = true ∧ Text.isBlank c = false :=
    ⟨Lexeme.startsToken_of_opensName hopen, isBlank_of_continuesName (Text.continuesName_of_opensName c hopen)⟩
  cases h with
  | name hid =>
    obtain ⟨c, cs, htext, hopen⟩ := hid.opens
    exact ⟨c, cs, htext, hword hopen⟩
  | reserved k =>
    obtain ⟨c, cs, htext, hopen, -⟩ := spelling_chars k
    exact ⟨c, cs, htext, hword hopen⟩
  | sign o =>
    obtain ⟨hne, hchars⟩ := Lexeme.symbol_chars o
    obtain ⟨c, cs, hsymbol⟩ := List.exists_cons_of_ne_nil hne
    refine ⟨c, cs, by rw [opWord, String.toList_ofList, hsymbol], hchars c ?_⟩
    rw [hsymbol]
    exact List.mem_cons_self

theorem closes (h : Unquoted w) : Expr.Closes w.2 := by
  cases h with
  | name hid => exact Expr.closes_name hid
  | reserved k =>
    obtain ⟨c, cs, htext, hopen, hcontinues⟩ := spelling_chars k
    refine Expr.closes_word htext ?_
    rw [keyWord, htext]
    exact List.forall_mem_cons.mpr ⟨Text.continuesName_of_opensName c hopen, hcontinues⟩
  | sign o =>
    obtain ⟨hne, hchars⟩ := Lexeme.symbol_chars o
    refine ⟨o.symbol.getLast hne, ?_, (hchars _ (List.getLast_mem hne)).2⟩
    rw [opWord, String.toList_ofList, List.getLast?_eq_some_getLast hne]

/-- The word is cut off where a blank or nothing follows. -/
theorem cuts (h : Unquoted w) {rest : List Char} (hrest : ∀ d ∈ rest.head?, d = ' ') :
    Cuts w.2.toList [w] rest := by
  have hedge : Lexeme.Edge rest := by
    intro d hd
    rw [hrest d hd]
    decide
  cases h with
  | name hid => exact cuts_name hid hedge
  | reserved k => exact cuts_keyword k hedge
  | sign o =>
    rw [opWord, String.toList_ofList]
    refine cuts_operator o (fun d hd => ?_) fun _ d hd => ?_
    · rw [hrest d hd]
      exact extendedBy_eq_false o (by decide)
    · rw [hrest d hd]
      rfl

end Unquoted

/-! ## Words set apart -/

/-- Words with one or more blanks between them. -/
inductive Spaced : List Word → List Char → Prop
  | one (w : Word) : Spaced [w] w.2.toList
  | cons (w : Word) (n : Nat) {ws : List Word} {cs : List Char} : Spaced ws cs →
      Spaced (w :: ws) (w.2.toList ++ (List.replicate (n + 1) ' ' ++ cs))

namespace Spaced

variable {ws : List Word} {cs : List Char}

/-- One blank between any two words is enough. -/
theorem intercalate (hws : ws ≠ []) : Spaced ws (List.intercalate [' '] (ws.map fun w => w.2.toList)) := by
  induction ws with
  | nil => exact absurd rfl hws
  | cons w ws ih =>
    cases ws with
    | nil =>
      rw [List.map_singleton, List.intercalate_singleton]
      exact .one w
    | cons v vs =>
      rw [List.map_cons, List.map_cons, List.intercalate_cons_cons, List.append_assoc]
      exact .cons w 0 (ih (List.cons_ne_nil _ _))

theorem opens (h : Spaced ws cs) (hws : ∀ w ∈ ws, Unquoted w) :
    ∃ d ds, cs = d :: ds ∧ Lexeme.startsToken d = true ∧ Text.isBlank d = false := by
  cases h with
  | one w => exact (hws w List.mem_cons_self).opens
  | cons w n h =>
    obtain ⟨d, ds, htext, hd⟩ := (hws w List.mem_cons_self).opens
    exact ⟨d, _, by rw [htext]; rfl, hd⟩

theorem closes (h : Spaced ws cs) (hws : ∀ w ∈ ws, Unquoted w) : Expr.Closes (String.ofList cs) := by
  induction h with
  | one w =>
    rw [String.ofList_toList]
    exact (hws w List.mem_cons_self).closes
  | cons w n _ ih =>
    have hlast := ih fun v hv => hws v (List.mem_cons_of_mem w hv)
    rw [← List.append_assoc, String.ofList_append]
    exact hlast.append _

theorem cuts (h : Spaced ws cs) (hws : ∀ w ∈ ws, Unquoted w) : Cuts cs ws [] := by
  induction h with
  | one w => exact (hws w List.mem_cons_self).cuts nofun
  | @cons w n ws cs h ih =>
    have hrest : ∀ v ∈ ws, Unquoted v := fun v hv => hws v (List.mem_cons_of_mem w hv)
    obtain ⟨d, ds, hcs, hd, -⟩ := h.opens hrest
    have hblanks : Cuts (List.replicate (n + 1) ' ') [] (cs ++ []) := by
      refine Cuts.blanks (fun c hc => by rw [List.eq_of_mem_replicate hc]; rfl) fun e he => ?_
      rw [hcs] at he
      obtain rfl := Option.some.inj he
      exact Lexeme.isLineBlank_of_startsToken hd
    refine ((hws w List.mem_cons_self).cuts ?_).append (hblanks.append (ih hrest))
    intro e he
    exact (Option.some.inj he).symm

end Spaced

/-! ## Words of trees -/

theorem unquoted_append {ws vs : List Word} (hws : ∀ w ∈ ws, Unquoted w) (hvs : ∀ w ∈ vs, Unquoted w) :
    ∀ w ∈ ws ++ vs, Unquoted w := List.forall_mem_append.mpr ⟨hws, hvs⟩

theorem unquoted_cons {v : Word} {ws : List Word} (hv : Unquoted v) (hws : ∀ w ∈ ws, Unquoted w) :
    ∀ w ∈ v :: ws, Unquoted w := List.forall_mem_cons.mpr ⟨hv, hws⟩

theorem unquoted_one {v : Word} (hv : Unquoted v) : ∀ w ∈ [v], Unquoted w :=
  List.forall_mem_singleton.mpr hv

theorem unquoted_commaBetween {wss : List (List Word)} (h : ∀ ws ∈ wss, ∀ w ∈ ws, Unquoted w) :
    ∀ w ∈ commaBetween wss, Unquoted w := by
  have hthen {vss : List (List Word)} (hvss : ∀ ws ∈ vss, ∀ w ∈ ws, Unquoted w) :
      ∀ w ∈ commaThen vss, Unquoted w := by
    intro w hw
    obtain ⟨ws, hws, hw⟩ := List.mem_flatMap.mp hw
    exact unquoted_cons (.sign .comma) (hvss ws hws) w hw
  cases wss with
  | nil => exact List.forall_mem_nil _
  | cons ws wss =>
    obtain ⟨hws, hwss⟩ := List.forall_mem_cons.mp h
    exact unquoted_append hws (hthen hwss)

namespace Expr

theorem unquoted_held {ws : List Word} (h : ∀ w ∈ ws, Unquoted w) (rank : Nat) (e : Expr) :
    ∀ w ∈ held rank e ws, Unquoted w := by
  unfold held
  split
  · exact unquoted_cons (.sign .openParen) (unquoted_append h (unquoted_one (.sign .closeParen)))
  · exact h

theorem unquoted_operator (op : BinaryOp) : ∀ w ∈ op.words, Unquoted w := by
  have hsign (o : Operator) : ∀ w ∈ [opWord o], Unquoted w := unquoted_one (.sign o)
  have hword (k : Keyword) : ∀ w ∈ [keyWord k], Unquoted w := unquoted_one (.reserved k)
  cases op
  case or | and | isIn | same => exact hword _
  case notIn | notSame => exact unquoted_cons (.reserved _) (hword _)
  all_goals exact hsign _

theorem unquoted_unary (op : UnaryOp) : Unquoted op.word := by
  cases op
  case not => exact .reserved .kwNot
  all_goals exact .sign _

mutual

theorem unquoted_grouped : ∀ e : Expr, e.Operative → ∀ w ∈ e.grouped, Unquoted w
  | name _ _, h => by
    rw [Operative] at h
    exact unquoted_one (.name h)
  | member _ value attr, h => by
    rw [Operative] at h
    exact unquoted_append (unquoted_held (unquoted_grouped value h.1) _ _)
      (unquoted_cons (.sign .dot) (unquoted_one (.name h.2)))
  | subscript _ value index, h => by
    rw [Operative] at h
    exact unquoted_append (unquoted_held (unquoted_grouped value h.1) _ _) (unquoted_cons (.sign .openBracket)
      (unquoted_append (unquoted_grouped index h.2) (unquoted_one (.sign .closeBracket))))
  | call _ callee arguments, h => by
    rw [Operative] at h
    exact unquoted_append (unquoted_held (unquoted_grouped callee h.1) _ _) (unquoted_cons (.sign .openParen)
      (unquoted_append (unquoted_commaBetween (unquoted_groupedList arguments h.2))
        (unquoted_one (.sign .closeParen))))
  | binary _ left op right, h => by
    rw [Operative] at h
    exact unquoted_append (unquoted_held (unquoted_grouped left h.1) _ _)
      (unquoted_append (unquoted_operator op) (unquoted_held (unquoted_grouped right h.2) _ _))
  | unary _ op operand, h => by
    rw [Operative] at h
    exact unquoted_cons (unquoted_unary op) (unquoted_held (unquoted_grouped operand h) _ _)
  | await _ value, h => by
    rw [Operative] at h
    exact unquoted_cons (.reserved .kwAwait) (unquoted_held (unquoted_grouped value h) _ _)
  | lambda _ _ body, h => by
    rw [Operative] at h
    exact unquoted_cons (.reserved .kwLambda) (unquoted_cons (.sign .colon) (unquoted_grouped body h.2))
  | conditional _ test body orelse, h => by
    rw [Operative] at h
    obtain ⟨htest, hbody, horelse⟩ := h
    exact unquoted_append (unquoted_held (unquoted_grouped body hbody) _ _) (unquoted_cons (.reserved .kwIf)
      (unquoted_append (unquoted_held (unquoted_grouped test htest) _ _)
        (unquoted_cons (.reserved .kwElse) (unquoted_grouped orelse horelse))))
  | constant .., h | slice .., h | tuple .., h | list .., h | set .., h | dict .., h | keyword .., h
  | starred .., h | comprehension .., h | named .., h | yield .., h => by
    rw [Operative] at h
    · exact h.elim
    all_goals exact nofun

theorem unquoted_groupedList : ∀ es : List Expr, operativeList es →
    ∀ ws ∈ groupedList es, ∀ w ∈ ws, Unquoted w
  | [], _ => nofun
  | e :: es, h => by
    rw [operativeList] at h
    exact List.forall_mem_cons.mpr ⟨unquoted_grouped e h.1, unquoted_groupedList es h.2⟩

end

end Expr
end TypeWatch
