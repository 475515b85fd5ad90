import TypeWatch.Proofs.Reading.RoundTrip
import TypeWatch.Proofs.Value.Escaped
import TypeWatch.Proofs.Value.Integer

/-! # Values as expressions

A value that has a literal (`Value.IsLiteral`) is written as an expression (`Value.tree`): its text is cut
into the words of the expression (`Value.cut_of_isLiteral`). -/
namespace TypeWatch.Value
set_option autoImplicit false

/-! ## Values that have a literal -/

/-- Values that are the elements of a set or the keys of a dictionary: all are hashable, and none equals
a later one. -/
structure AreKeys (items : List Value) : Prop where
  hashable : ∀ v ∈ items, v.isHashable = true
  apart : items.Pairwise fun v w => v.equals w = false

mutual

/-- Whether a value is built from constants and containers. The least integer has no literal, since its
opposite has no place in 64 bits. -/
def IsLiteral : Value → Prop
  | none | bool _ | str _ | bytes _ => True
  | int n => n ≠ Int64.minValue
  | list items | tuple items => AllLiteral items
  | set items => AllLiteral items ∧ AreKeys items
  | dict entries => EntriesLiteral entries ∧ AreKeys (entries.map Prod.fst)
  | _ => False

def AllLiteral : List Value → Prop
  | [] => True
  | v :: vs => v.IsLiteral ∧ AllLiteral vs

def EntriesLiteral : List (Value × Value) → Prop
  | [] => True
  | (k, v) :: es => (k.IsLiteral ∧ v.IsLiteral) ∧ EntriesLiteral es

end

/-! ## Expressions of values -/

mutual

/-- The expression that the text of a value is. -/
def tree : Value → Expr
  | bool b => .constant default (if b then .trueWord else .falseWord)
  | int n =>
    if 0 ≤ n.toInt then .constant default (.number (toString n.toInt))
    else .unary default .negate (.constant default (.number (toString (-n).toInt)))
  | str text => .constant default (.string text)
  | bytes octets => .constant default (.bytes (String.ofList (octetChars octets)))
  | list items => .list default (trees items)
  | tuple items => .tuple default (trees items)
  | set [] => .call default (.name default "set") []
  | set (v :: vs) => .set default (v.tree :: trees vs)
  | dict entries => .dict default (entryTrees entries)
  | _ => .constant default .noneWord

def trees : List Value → List Expr
  | [] => []
  | v :: vs => v.tree :: trees vs

def entryTrees : List (Value × Value) → List Entry
  | [] => []
  | (k, v) :: es => .pair k.tree v.tree :: entryTrees es

end

mutual

/-- No operand in the text of a value needs parentheses. -/
theorem isTight_tree : ∀ v : Value, v.tree.isTight = true
  | none | bool _ | float _ | complex .. | str _ | bytes _ | frozenset _ | slice .. | object .. | type _
  | applied .. | form _ | module .. | function _ => by simp only [tree, Expr.isTight]
  | int n => by
    unfold tree
    split <;> rfl
  | list items | tuple items => by simp only [tree, Expr.isTight, tightList_trees items]
  | set [] => rfl
  | set (v :: vs) => by simp [tree, Expr.isTight, Expr.tightList, isTight_tree v, tightList_trees vs]
  | dict entries => by simp only [tree, Expr.isTight, tightEntries_entryTrees entries]

theorem tightList_trees : ∀ vs : List Value, Expr.tightList (trees vs) = true
  | [] => rfl
  | v :: vs => by simp [trees, Expr.tightList, isTight_tree v, tightList_trees vs]

theorem tightEntries_entryTrees : ∀ es : List (Value × Value), Expr.tightEntries (entryTrees es) = true
  | [] => rfl
  | (k, v) :: es => by
    simp [entryTrees, Expr.tightEntries, isTight_tree k, isTight_tree v, tightEntries_entryTrees es]

end

/-! ## Texts of values -/

/-- Whether a token begins at the first character of a text, which is no white space. -/
def Opens (text : String) : Prop :=
  ∃ c cs, text.toList = c :: cs ∧ Lexeme.startsToken c = true ∧ Text.isBlank c = false

theorem opens_of {text : String} (c : Char) (h : text.toList.head? = some c)
    (hc : Lexeme.startsToken c = true ∧ Text.isBlank c = false) : Opens text := by
  obtain ⟨cs, hcs⟩ := List.head?_eq_some_iff.mp h
  exact ⟨c, cs, hcs, hc⟩

/-- A value whose text is cut into the words of its expression, and has no white space at its ends. -/
structure Cut (v : Value) : Prop where
  opens : Opens v.text
  closes : Expr.Closes v.text
  cuts : ∀ rest, Gap rest → Cuts v.text.toList v.tree.words rest

theorem Cut.item {v : Value} (h : v.Cut) : Item v.text v.tree.words := by
  obtain ⟨c, cs, htext, hstarts, -⟩ := h.opens
  exact ⟨⟨c, cs, htext, Lexeme.isLineBlank_of_startsToken hstarts⟩, h.cuts⟩

section Constants

/-- The digits of a number without a sign. -/
theorem digits_toString {n : Int} (h : 0 ≤ n) :
    ∃ c cs, (toString n).toList = c :: cs ∧ c.isDigit = true ∧ Lexeme.IsNumber (toString n).toList := by
  rw [toList_toString h]
  obtain ⟨c, cs, hcs⟩ := List.exists_cons_of_ne_nil (Nat.toDigits_ne_nil (n := n.toNat) (b := 10))
  refine ⟨c, cs, hcs, ?_, isNumber_toDigits n.toNat⟩
  exact isDigit_of_mem_toDigits c (by rw [hcs]; exact List.mem_cons_self)

theorem closes_number {text : String} (h : Lexeme.IsNumber text.toList) : Expr.Closes text :=
  Expr.closes_constant default (.number text) h

theorem cut_int (n : Int64) (hn : n ≠ Int64.minValue) : (int n).Cut := by
  by_cases hpos : 0 ≤ n.toInt
  · obtain ⟨c, cs, hdigits, hc, hnumber⟩ := digits_toString hpos
    have hopen : opensWritten c = true := by simp [opensWritten, hc]
    have hwords : (int n).tree.words = [(.number, toString n.toInt)] := by rw [tree, if_pos hpos]; rfl
    refine ⟨⟨c, cs, hdigits, startsToken_of_opensWritten hopen, isBlank_of_opensWritten hopen⟩,
      closes_number hnumber, fun rest hrest => ?_⟩
    rw [hwords]
    exact cuts_number hnumber hrest.quiet
  · obtain ⟨c, cs, hdigits, hc, hnumber⟩ := digits_toString (toInt_neg_nonneg hn hpos)
    have hopen : opensWritten c = true := by simp [opensWritten, hc]
    have hsigned : (int n).text = "-" ++ toString (-n).toInt := toString_of_neg hn (Int.not_le.mp hpos)
    have hwords : (int n).tree.words = [opWord .minus] ++ [(.number, toString (-n).toInt)] := by
      rw [tree, if_neg hpos]
      rfl
    refine ⟨opens_of '-' (by simp [hsigned]) (by decide), ?_, fun rest hrest => ?_⟩
    · rw [hsigned]
      exact (closes_number hnumber).append "-"
    · rw [hwords, hsigned, String.toList_append]
      refine Cuts.append ?_ (cuts_number hnumber hrest.quiet)
      rw [hdigits]
      refine cuts_before (o := .minus) (by rintro ⟨⟩) hopen ?_ _
      rintro (rfl | rfl) <;> decide

/-- A string literal begins with a token and ends with a quote. -/
theorem edges_literal {text : String} {letters cs : List Char} {q : Char} (hletters : Lexeme.IsMark letters)
    (hq : Lexeme.isQuote q = true) (htext : text.toList = letters ++ Lexeme.inQuotes q cs) :
    Opens text ∧ Expr.Closes text := by
  obtain ⟨c, ds, hc⟩ : ∃ c ds, text.toList = c :: ds := List.exists_cons_of_ne_nil (by
    rw [htext, Lexeme.inQuotes]
    simp)
  have hstarts := @Lexeme.startsToken_inQuotes q cs letters hletters hq
  rw [← htext, hc] at hstarts
  refine ⟨⟨c, ds, hc, hstarts c rfl⟩, q, ?_, ?_⟩
  · rw [htext, Lexeme.inQuotes, List.getLast?_append, List.getLast?_append]
    rfl
  · rcases Lexeme.isQuote_cases hq with rfl | rfl <;> decide

theorem cut_str (text : String) : (str text).Cut := by
  obtain ⟨hopens, hcloses⟩ := edges_literal (Or.inl rfl) (isQuote_quoteFor text.toList) (toList_strText text)
  exact ⟨hopens, hcloses, fun rest hrest => cuts_strText text hrest.edge⟩

theorem cut_bytes (octets : List UInt8) : (bytes octets).Cut := by
  obtain ⟨hopens, hcloses⟩ := edges_literal (Or.inr (Or.inl rfl)) (isQuote_quoteFor (octetChars octets))
    (toList_bytesText octets)
  exact ⟨hopens, hcloses, fun rest hrest => cuts_bytesText octets hrest.edge⟩

end Constants

section Containers

variable {items : List Value} {wss : List (List Word)}

theorem cut_list (h : List.Forall₂ Item (textsIn false items) (Expr.wordsList (trees items))) :
    (list items).Cut := by
  have htext : (list items).text.toList = '[' :: ((Expr.commaSeparated (textsIn false items)).toList ++ [']']) := by
    simp [Value.text, textIn, commaSeparated, Expr.commaSeparated]
  refine ⟨opens_of '[' (by rw [htext]; rfl) (by decide), (Expr.closes_bracket (Or.inr (Or.inl rfl))).append _,
    fun rest _ => ?_⟩
  rw [htext, tree, Expr.words]
  exact Cuts.brackets (cuts_commaSeparated h (gap_cons (by decide) rest))

theorem cut_tuple (h : List.Forall₂ Item (textsIn false items) (Expr.wordsList (trees items))) :
    (tuple items).Cut := by
  have htext : (tuple items).text = Expr.parenthesized (textsIn false items) := by
    rw [Value.text, textIn, tupleText.eq_def, Expr.parenthesized.eq_def]
    rfl
  refine ⟨opens_of '(' (by rw [htext]; exact Expr.head?_parenthesized _) (by decide), ?_, fun rest _ => ?_⟩
  · rw [htext]
    exact Expr.closes_parenthesized _
  · rw [htext, tree, Expr.words]
    exact cuts_tuple h rest

/-- The text of what stands between braces. -/
theorem cuts_braced {texts : List String} (h : List.Forall₂ Item texts wss) (rest : List Char) :
    Cuts (braced texts).toList (opWord .openBrace :: (commaBetween wss ++ [opWord .closeBrace])) rest := by
  have htext : (braced texts).toList = '\x7b' :: ((Expr.commaSeparated texts).toList ++ ['\x7d']) := by
    simp [braced, commaSeparated, Expr.commaSeparated]
  rw [htext]
  exact Cuts.braces (cuts_commaSeparated h (gap_cons (by decide) rest))

theorem opens_braced (texts : List String) : Opens (braced texts) :=
  opens_of '\x7b' (by simp [braced]) (by decide)

theorem closes_braced (texts : List String) : Expr.Closes (braced texts) :=
  (Expr.closes_bracket (Or.inr (Or.inr rfl))).append _

/-- The empty set is written as a call, since braces alone are a dictionary. -/
theorem cut_emptySet : (set []).Cut := by
  have hname : IsName "set" := ⟨⟨_, _, rfl, by decide⟩, Lexeme.forall_of_all (by decide), by decide⟩
  refine ⟨opens_of 's' rfl (by decide), ⟨')', rfl, by decide⟩, fun rest _ => ?_⟩
  have hcuts := (cuts_name hname (Lexeme.edge_cons (by decide) _)).append (Cuts.parens (Cuts.nil (')' :: rest)))
  exact hcuts

theorem cut_set {v : Value} {vs : List Value}
    (h : List.Forall₂ Item (textsIn false (v :: vs)) (Expr.wordsList (trees (v :: vs)))) : (set (v :: vs)).Cut := by
  have htext : (set (v :: vs)).text = braced (textsIn false (v :: vs)) := rfl
  refine ⟨htext ▸ opens_braced _, htext ▸ closes_braced _, fun rest _ => ?_⟩
  rw [htext, tree, Expr.words]
  exact cuts_braced h rest

theorem cut_dict {entries : List (Value × Value)}
    (h : List.Forall₂ Item (entryTexts entries) (Expr.wordsEntries (entryTrees entries))) : (dict entries).Cut := by
  have htext : (dict entries).text = braced (entryTexts entries) := rfl
  refine ⟨htext ▸ opens_braced _, htext ▸ closes_braced _, fun rest _ => ?_⟩
  rw [htext, tree, Expr.words]
  exact cuts_braced h rest

end Containers

mutual

/-- The text of a value is cut into the words of its expression. -/
theorem cut_of_isLiteral : ∀ v : Value, v.IsLiteral → v.Cut
  | none, _ => ⟨opens_of 'N' rfl (by decide), ⟨'e', rfl, by decide⟩, fun _ hrest => cuts_keyword .kwNone hrest.edge⟩
  | bool true, _ =>
    ⟨opens_of 'T' rfl (by decide), ⟨'e', rfl, by decide⟩, fun _ hrest => cuts_keyword .kwTrue hrest.edge⟩
  | bool false, _ =>
    ⟨opens_of 'F' rfl (by decide), ⟨'e', rfl, by decide⟩, fun _ hrest => cuts_keyword .kwFalse hrest.edge⟩
  | int n, h => cut_int n (by rwa [IsLiteral] at h)
  | str text, _ => cut_str text
  | bytes octets, _ => cut_bytes octets
  | list items, h => cut_list (items_of_literals items (by rwa [IsLiteral] at h))
  | tuple items, h => cut_tuple (items_of_literals items (by rwa [IsLiteral] at h))
  | set [], _ => cut_emptySet
  | set (v :: vs), h => by
    rw [IsLiteral, AllLiteral] at h
    exact cut_set (.cons (cut_of_isLiteral v h.1.1).item (items_of_literals vs h.1.2))
  | dict entries, h => by
    rw [IsLiteral] at h
    exact cut_dict (items_of_entries entries h.1)
  | float _, h | complex .., h | frozenset _, h | slice .., h | object .., h | type _, h | applied .., h | form _, h
  | module .., h | function _, h => by simp only [IsLiteral] at h

theorem items_of_literals : ∀ vs : List Value, AllLiteral vs →
    List.Forall₂ Item (textsIn false vs) (Expr.wordsList (trees vs))
  | [], _ => .nil
  | v :: vs, h => by
    rw [AllLiteral] at h
    exact .cons (cut_of_isLiteral v h.1).item (items_of_literals vs h.2)

theorem items_of_entries : ∀ es : List (Value × Value), EntriesLiteral es →
    List.Forall₂ Item (entryTexts es) (Expr.wordsEntries (entryTrees es))
  | [], _ => .nil
  | (k, v) :: es, h => by
    rw [EntriesLiteral] at h
    exact .cons ((cut_of_isLiteral k h.1.1).item.pair (cut_of_isLiteral v h.1.2).item) (items_of_entries es h.2)

end

/-- The text of a value is read as its expression, with places. -/
theorem ofText_tree {v : Value} (h : v.IsLiteral) : ∃ e, Expr.ofText v.text = .ok e ∧ e.bare = v.tree.bare := by
  have hcut := cut_of_isLiteral v h
  obtain ⟨c, cs, htext, hstarts, hblank⟩ := hcut.opens
  have hcuts := hcut.cuts [] nofun
  rw [htext] at hcuts
  exact Expr.ofText_of_stands htext hstarts hblank hcut.closes hcuts
    (Reading.stands_of_phrase (Reading.phrase_of_isTight v.tree (isTight_tree v)))

end TypeWatch.Value
