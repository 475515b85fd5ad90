import TypeWatch.Proofs.Syntax.Bare
import TypeWatch.Proofs.Value.Tree

/-! # Values read again

A value that has a literal is what its text stands for, with its elements and entries in their order. The
places that reading gives to the parts of an expression do not matter (`Literal.value_bare`), and without
them the expression is the one that the value is written as (`Literal.value_tree`). -/
namespace TypeWatch
set_option autoImplicit false

/-! ## Places do not matter -/

namespace Literal

section Places

variable {e e' : Expr}

theorem notALiteral_congr {α : Type} (h : e.written = e'.written) :
    (notALiteral e : Except LiteralError α) = notALiteral e' := by
  rw [notALiteral, notALiteral, h]

theorem constant_congr (h : e.written = e'.written) (c : Constant) : constant e c = constant e' c := by
  cases c <;> simp only [constant, notALiteral_congr h]

theorem signed_congr (h : e.written = e'.written) (op : UnaryOp) (v : Value) : signed e op v = signed e' op v := by
  unfold signed
  simp only [notALiteral_congr h]

theorem realPart_congr (h : e.written = e'.written) (v : Value) : realPart e v = realPart e' v := by
  unfold realPart
  simp only [notALiteral_congr h]

theorem complexSum_congr (h : e.written = e'.written) (re : Float) (op : BinaryOp) (v : Value) :
    complexSum e re op v = complexSum e' re op v := by
  unfold complexSum
  simp only [notALiteral_congr h]

/-- No call but the one that makes the empty set is a literal. -/
theorem value_call (s : Span) {callee : Expr} {arguments : List Expr}
    (h : ∀ s', callee = .name s' "set" → arguments ≠ []) :
    value (.call s callee arguments) = notALiteral (.call s callee arguments) := by
  rw [value]
  intro s' _ hcallee harguments _
  exact h s' hcallee harguments

theorem call_bare (s : Span) (callee : Expr) (arguments : List Expr) :
    value (Expr.call s callee arguments).bare = value (.call s callee arguments) := by
  have hno := notALiteral_congr (α := Value) (Expr.written_bare (.call s callee arguments))
  by_cases hset : ∃ s', callee = .name s' "set" ∧ arguments = []
  · obtain ⟨s', rfl, rfl⟩ := hset
    rfl
  · have hcall : ∀ s', callee = .name s' "set" → arguments ≠ [] := fun s' hcallee hnil => hset ⟨s', hcallee, hnil⟩
    rw [value_call s hcall, ← hno]
    refine value_call default fun s' hcallee hnil => ?_
    cases callee with
    | name s'' id =>
      have hname : Expr.name s'' id = .name s'' "set" := by rw [(Expr.name.inj hcallee).2]
      cases arguments with
      | nil => exact hcall s'' hname rfl
      | cons argument arguments => exact absurd hnil nofun
    | _ => exact absurd hcallee nofun

mutual

/-- What an expression stands for does not depend on the places of its parts. -/
theorem value_bare : ∀ e : Expr, value e.bare = value e
  | .constant s c => constant_congr (Expr.written_bare (.constant s c)) c
  | .list s elements => by rw [Expr.bare, value, value, values_bare elements]
  | .tuple s elements => by rw [Expr.bare, value, value, values_bare elements]
  | .set s elements => by rw [Expr.bare, value, value, values_bare elements]
  | .dict s es => by
    have hwhole := Expr.written_bare (.dict s es)
    rw [Expr.bare] at hwhole ⊢
    rw [value, value, entries_bare hwhole es]
  | .call s callee arguments => call_bare s callee arguments
  | .unary s op operand => by
    have hwhole := Expr.written_bare (.unary s op operand)
    rw [Expr.bare] at hwhole ⊢
    rw [value, value, value_bare operand]
    simp only [signed_congr hwhole]
  | .binary s left op right => by
    have hwhole := Expr.written_bare (.binary s left op right)
    rw [Expr.bare] at hwhole ⊢
    rw [value, value, value_bare left, value_bare right]
    simp only [realPart_congr hwhole, complexSum_congr hwhole]
  | .name s id => notALiteral_congr (Expr.written_bare (.name s id))
  | .member s e attr => notALiteral_congr (Expr.written_bare (.member s e attr))
  | .subscript s e index => notALiteral_congr (Expr.written_bare (.subscript s e index))
  | .slice s lower upper step => notALiteral_congr (Expr.written_bare (.slice s lower upper step))
  | .keyword s label e => notALiteral_congr (Expr.written_bare (.keyword s label e))
  | .starred s e => notALiteral_congr (Expr.written_bare (.starred s e))
  | .lambda s parameters body => notALiteral_congr (Expr.written_bare (.lambda s parameters body))
  | .conditional s test body orelse => notALiteral_congr (Expr.written_bare (.conditional s test body orelse))
  | .comprehension s kind element value clauses =>
    notALiteral_congr (Expr.written_bare (.comprehension s kind element value clauses))
  | .named s target e => notALiteral_congr (Expr.written_bare (.named s target e))
  | .await s e => notALiteral_congr (Expr.written_bare (.await s e))
  | .yield s e delegates => notALiteral_congr (Expr.written_bare (.yield s e delegates))

theorem values_bare : ∀ es : List Expr, values (Expr.bareList es) = values es
  | [] => rfl
  | e :: es => by rw [Expr.bareList, values, values, value_bare e, values_bare es]

theorem entries_bare {whole whole' : Expr} (h : whole.written = whole'.written) : ∀ es : List Entry,
    entries whole (Expr.bareEntries es) = entries whole' es
  | [] => rfl
  | .unpack e :: es => notALiteral_congr h
  | .pair k v :: es => by
    rw [Expr.bareEntries, entries, entries, value_bare k, value_bare v, entries_bare h es]

end

end Places

end Literal

/-! ## Elements and keys -/

namespace Value

theorem addDistinct_of_new {items : List Value} {v : Value} (h : ∀ w ∈ items, w.equals v = false) :
    addDistinct items v = items ++ [v] := by
  rw [addDistinct, if_neg]
  simpa using h

theorem foldl_addDistinct {before items : List Value}
    (h : (before ++ items).Pairwise fun v w => v.equals w = false) :
    items.foldl addDistinct before = before ++ items := by
  induction items generalizing before with
  | nil => simp
  | cons v items ih =>
    have hnew := (List.pairwise_append.mp h).2.2
    rw [List.foldl_cons, addDistinct_of_new fun w hw => hnew w hw v List.mem_cons_self,
      ih (by rwa [List.append_assoc]), List.append_assoc]
    rfl

/-- A set of values none of which equals a later one has all of them, in their order. -/
theorem setOf_of_areKeys {items : List Value} (h : AreKeys items) : setOf items = set items := by
  rw [setOf, distinct, @foldl_addDistinct [] items h.apart, List.nil_append]

theorem putEntry_of_new {entries : List (Value × Value)} {key : Value} (value : Value)
    (h : ∀ e ∈ entries, e.1.equals key = false) : putEntry entries key value = entries ++ [(key, value)] := by
  induction entries with
  | nil => rfl
  | cons e entries ih =>
    rw [putEntry, if_neg (by simp [h e List.mem_cons_self]), ih fun e he => h e (List.mem_cons_of_mem _ he)]
    rfl

theorem foldl_putEntry {before entries : List (Value × Value)}
    (h : ((before ++ entries).map Prod.fst).Pairwise fun v w => v.equals w = false) :
    entries.foldl (fun acc e => putEntry acc e.1 e.2) before = before ++ entries := by
  induction entries generalizing before with
  | nil => simp
  | cons e entries ih =>
    have hnew : ∀ o ∈ before, o.1.equals e.1 = false := by
      intro o ho
      rw [List.map_append] at h
      exact (List.pairwise_append.mp h).2.2 o.1 (List.mem_map_of_mem ho) e.1 (by simp)
    rw [List.foldl_cons, putEntry_of_new e.2 hnew, ih (by rwa [List.append_assoc]), List.append_assoc]
    rfl

/-- A dictionary of entries whose keys do not equal later ones has all of them, in their order. -/
theorem dictOf_of_areKeys {entries : List (Value × Value)} (h : AreKeys (entries.map Prod.fst)) :
    dictOf entries = dict entries := by
  rw [dictOf, @foldl_putEntry [] entries h.apart, List.nil_append]

end Value

/-! ## Meanings of expressions of values -/

namespace Literal

open Value (IsLiteral AllLiteral EntriesLiteral trees entryTrees)

theorem hashable_of_forall {items : List Value} (h : ∀ v ∈ items, v.isHashable = true) : hashable items = .ok () := by
  have hnone : items.find? (fun v => !v.isHashable) = none :=
    List.find?_eq_none.mpr fun v hv => by simp [h v hv]
  rw [hashable, hnone]

theorem value_int {n : Int64} (h : n ≠ Int64.minValue) : value (Value.int n).tree = .ok (.int n) := by
  by_cases hpos : 0 ≤ n.toInt
  · rw [Value.tree, if_pos hpos, value, constant]
    exact number_toString hpos
  · have hnumber := number_toString (toInt_neg_nonneg h hpos)
    rw [Value.tree, if_neg hpos, value, value, constant, hnumber]
    simp only [bind, Except.bind, signed, if_neg (neg_ne_minValue h), Int64.neg_neg]

mutual

theorem value_tree : ∀ v : Value, v.IsLiteral → value v.tree = .ok v
  | .none, _ | .bool true, _ | .bool false, _ | .str _, _ | .set [], _ => by simp [Value.tree, value, constant]
  | .int n, h => value_int (by rwa [IsLiteral] at h)
  | .bytes octets, _ => by
    rw [Value.tree, value, constant, String.toList_ofList, Value.octets?_octetChars]
  | .list items, h => by
    rw [IsLiteral] at h
    rw [Value.tree, value, values_trees items h]
    rfl
  | .tuple items, h => by
    rw [IsLiteral] at h
    rw [Value.tree, value, values_trees items h]
    rfl
  | .set (v :: vs), h => by
    rw [IsLiteral, AllLiteral] at h
    obtain ⟨⟨hv, hvs⟩, hkeys⟩ := h
    have hset := Value.setOf_of_areKeys hkeys
    rw [Value.tree, value, values, value_tree v hv, values_trees vs hvs]
    simp only [bind, Except.bind, pure, Except.pure, hashable_of_forall hkeys.hashable, hset]
  | .dict es, h => by
    rw [IsLiteral] at h
    rw [Value.tree, value, entries_entryTrees _ es h.1 h.2.hashable]
    exact congrArg Except.ok (Value.dictOf_of_areKeys h.2)
  | .float _, h | .complex .., h | .frozenset _, h | .slice .., h | .object .., h | .type _, h | .applied .., h
  | .form _, h | .module .., h | .function _, h => by simp only [IsLiteral] at h

theorem values_trees : ∀ vs : List Value, AllLiteral vs → values (trees vs) = .ok vs
  | [], _ => rfl
  | v :: vs, h => by
    rw [AllLiteral] at h
    rw [trees, values, value_tree v h.1, values_trees vs h.2]
    rfl

theorem entries_entryTrees (whole : Expr) : ∀ es : List (Value × Value), EntriesLiteral es →
    (∀ k ∈ es.map Prod.fst, k.isHashable = true) → entries whole (entryTrees es) = .ok es
  | [], _, _ => rfl
  | (k, v) :: es, h, hkeys => by
    rw [EntriesLiteral] at h
    have hkey : hashable [k] = .ok () := by
      refine hashable_of_forall fun w hw => ?_
      rw [List.mem_singleton.mp hw]
      exact hkeys k List.mem_cons_self
    have hes := entries_entryTrees whole es h.2 fun w hw => hkeys w (List.mem_cons_of_mem _ hw)
    rw [entryTrees, entries, value_tree k h.1.1, value_tree v h.1.2, hes]
    simp only [bind, Except.bind, pure, Except.pure, hkey]

end

end Literal

/-! ## Round trip -/

namespace Value

/-- The text of a value is read as the value. -/
theorem ofText_text {v : Value} (h : v.IsLiteral) : ofText v.text = .ok v := by
  obtain ⟨e, hread, hbare⟩ := ofText_tree h
  have hvalue : Literal.value e = .ok v :=
    calc Literal.value e = Literal.value e.bare := (Literal.value_bare e).symm
      _ = Literal.value v.tree.bare := by rw [hbare]
      _ = Literal.value v.tree := Literal.value_bare v.tree
      _ = .ok v := Literal.value_tree v h
  rw [ofText, hread]
  exact hvalue

/-- A value with both quotes, bytes, a sign, and containers that are empty or have one element. -/
def nested : Value :=
  dict [
    (str "it's", list [int (-3), none, bytes [0, 39, 255], tuple [bool true]]),
    (tuple [], set [str "\"'\n", str "\\", bytes [92]]),
    (int 7, tuple [set [], dict []])]

theorem isLiteral_nested : nested.IsLiteral := by
  have hset : AreKeys [str "\"'\n", str "\\", bytes [92]] := ⟨by decide, by simp [equals]⟩
  have hdict : AreKeys [str "it's", tuple [], int 7] := ⟨by decide, by simp [equals]⟩
  have hempty : AreKeys [] := ⟨List.forall_mem_nil _, .nil⟩
  simp only [nested, IsLiteral, AllLiteral, EntriesLiteral, List.map_cons, List.map_nil, hset, hdict, hempty]
  decide

theorem ofText_nestedText : nested.IsLiteral ∧
    nested.text = "\x7b\"it's\": [-3, None, b\"\\x00'\\xff\", (True,)], " ++
      "(): \x7b'\"\\'\\n', '\\\\', b'\\\\'\x7d, 7: (set(), \x7b\x7d)\x7d" ∧
    ofText nested.text = .ok nested :=
  ⟨isLiteral_nested, by decide, ofText_text isLiteral_nested⟩

end Value

end TypeWatch
