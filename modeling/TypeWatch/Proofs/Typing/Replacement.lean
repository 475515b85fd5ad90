import TypeWatch.Proofs.Typing.Arity

/-! # One member decides

A value of a type is built as the type tells (`Descriptor.Fits`). What stands somewhere in it, on a way on which the
type is taken apart with the value (`Descriptor.Leads`), may be replaced by other values of the type at the end of that
way, and by nothing else (`Descriptor.check_replaceAt`). -/
namespace TypeWatch
set_option autoImplicit false

/-- A predicate on all members comes down to the one that is changed. -/
theorem all_modify {α : Type} {p : α → Bool} {l : List α} {i : Nat} {a : α} (h : l.all p = true)
    (hi : l[i]? = some a) (f : α → α) : (l.modify i f).all p = p (f a) := by
  induction l generalizing i with
  | nil => exact absurd hi nofun
  | cons x l ih =>
    obtain ⟨hx, hl⟩ := Bool.and_eq_true_iff.mp (List.all_cons ▸ h)
    cases i with
    | zero =>
      obtain rfl := Option.some.inj hi
      rw [List.modify_zero_cons, List.all_cons, hl, Bool.and_true]
    | succ i => rw [List.modify_succ_cons, List.all_cons, hx, Bool.true_and, ih hl hi]

theorem modify_fixed {α : Type} {l : List α} {i : Nat} {a : α} {f : α → α} (hi : l[i]? = some a) (hf : f a = a) :
    l.modify i f = l := by
  refine List.ext_getElem? fun j => ?_
  rw [List.getElem?_modify]
  split
  case isTrue h => rw [← h, hi, Option.map_eq_map, Option.map_some, hf]
  case isFalse h => rw [Option.map_eq_map, Option.map_id']

/-! ## Places in values -/

/-- A step into a value: to what an object contains, to an element, or to the key or the value of an entry. -/
inductive Descent where
  | payload
  | item (i : Nat)
  | key (i : Nat)
  | value (i : Nat)
  deriving DecidableEq, Repr

namespace Value

/-- Puts a value in the place to which some steps lead. In sets and dictionaries too it takes that place as it is,
whether or not it equals another member. -/
def replaceAt : Value → List Descent → Value → Value
  | _, [], w => w
  | object cls (some payload), .payload :: path, w => object cls (some (payload.replaceAt path w))
  | list items, .item i :: path, w => list (items.modify i fun x => x.replaceAt path w)
  | set items, .item i :: path, w => set (items.modify i fun x => x.replaceAt path w)
  | frozenset items, .item i :: path, w => frozenset (items.modify i fun x => x.replaceAt path w)
  | dict entries, .key i :: path, w => dict (entries.modify i fun e => (e.1.replaceAt path w, e.2))
  | dict entries, .value i :: path, w => dict (entries.modify i fun e => (e.1, e.2.replaceAt path w))
  | v, _ :: _, _ => v

end Value

namespace Descriptor

variable {d s : Descriptor} {v u w : Value} {path : List Descent}

/-- Steps that lead into a value and at the same time from the type of the value to an argument, to that of the
arguments, and so on, with the type and the value to which they lead. -/
inductive Leads : Descriptor → Value → List Descent → Descriptor → Value → Prop
  | here (d : Descriptor) (v : Value) : Leads d v [] d v
  | payload {origin : Container} {args : List Descriptor} {cls : ClassType} {payload : Value} {path : List Descent}
    {s : Descriptor} {u : Value} (h : Leads (generic origin args) payload path s u) :
    Leads (generic origin args) (.object cls (some payload)) (.payload :: path) s u
  | listItem {element : Descriptor} {items : List Value} {i : Nat} {x : Value} {path : List Descent}
    {s : Descriptor} {u : Value} (hi : items[i]? = some x) (h : Leads element x path s u) :
    Leads (generic .list [element]) (.list items) (.item i :: path) s u
  | setItem {element : Descriptor} {items : List Value} {i : Nat} {x : Value} {path : List Descent}
    {s : Descriptor} {u : Value} (hi : items[i]? = some x) (h : Leads element x path s u) :
    Leads (generic .set [element]) (.set items) (.item i :: path) s u
  | frozensetItem {element : Descriptor} {items : List Value} {i : Nat} {x : Value} {path : List Descent}
    {s : Descriptor} {u : Value} (hi : items[i]? = some x) (h : Leads element x path s u) :
    Leads (generic .set [element]) (.frozenset items) (.item i :: path) s u
  | key {key value : Descriptor} {entries : List (Value × Value)} {i : Nat} {k x : Value} {path : List Descent}
    {s : Descriptor} {u : Value} (hi : entries[i]? = some (k, x)) (h : Leads key k path s u) :
    Leads (generic .dict [key, value]) (.dict entries) (.key i :: path) s u
  | value {key value : Descriptor} {entries : List (Value × Value)} {i : Nat} {k x : Value} {path : List Descent}
    {s : Descriptor} {u : Value} (hi : entries[i]? = some (k, x)) (h : Leads value x path s u) :
    Leads (generic .dict [key, value]) (.dict entries) (.value i :: path) s u

/-- Container types look through objects of classes of the program. -/
theorem accepts_payload (origin : Container) (args : List Descriptor) (cls : ClassType) (payload : Value) :
    (generic origin args).accepts (.object cls (some payload)) = (generic origin args).accepts payload := by
  cases origin with
  | list | set => rcases args with _ | ⟨element, _ | _⟩ <;> rfl
  | dict => rcases args with _ | ⟨key, _ | ⟨value, _ | _⟩⟩ <;> rfl

theorem Leads.validate (h : Leads d v path s u) (hd : d.validate = .ok ()) : s.validate = .ok () := by
  induction h with
  | here d v => exact hd
  | payload h ih => exact ih hd
  | listItem hi h ih | setItem hi h ih | frozensetItem hi h ih =>
    exact ih ((validate_generic.mp hd).2 _ (by simp))
  | key hi h ih | value hi h ih => exact ih ((validate_generic.mp hd).2 _ (by simp))

theorem Leads.accepts_replaceAt (h : Leads d v path s u) (hv : d.accepts v = true) (w : Value) :
    d.accepts (v.replaceAt path w) = s.accepts w := by
  induction h with
  | here d v => rfl
  | payload h ih =>
    rw [accepts_payload] at hv
    rw [Value.replaceAt, accepts_payload, ih hv]
  | listItem hi h ih | setItem hi h ih | frozensetItem hi h ih =>
    have hx := List.all_eq_true.mp hv _ (List.mem_of_getElem? hi)
    exact (all_modify hv hi _).trans (ih hx)
  | key hi h ih =>
    obtain ⟨hk, hx⟩ := Bool.and_eq_true_iff.mp (List.all_eq_true.mp hv _ (List.mem_of_getElem? hi))
    refine (all_modify hv hi _).trans ?_
    rw [ih hk, hx, Bool.and_true]
  | value hi h ih =>
    obtain ⟨hk, hx⟩ := Bool.and_eq_true_iff.mp (List.all_eq_true.mp hv _ (List.mem_of_getElem? hi))
    refine (all_modify hv hi _).trans ?_
    rw [ih hx, hk, Bool.true_and]

/-- What stands in a place is put there to no effect. -/
theorem Leads.replaceAt_self (h : Leads d v path s u) : v.replaceAt path u = v := by
  induction h with
  | here d v => rfl
  | payload h ih => rw [Value.replaceAt, ih]
  | listItem hi h ih | setItem hi h ih | frozensetItem hi h ih => rw [Value.replaceAt, modify_fixed hi ih]
  | key hi h ih | value hi h ih => rw [Value.replaceAt, modify_fixed hi (by rw [ih])]

/-! ## Values that are built to a type -/

/-- A value that is put together as a type tells. -/
inductive Fits : Descriptor → Value → Prop
  | primitive {cls : ClassType} {v : Value} (h : v.isInstance cls = true) : Fits (primitive cls) v
  | list {element : Descriptor} {items : List Value} (h : ∀ x ∈ items, Fits element x) :
    Fits (generic .list [element]) (.list items)
  | set {element : Descriptor} {items : List Value} (h : ∀ x ∈ items, Fits element x) :
    Fits (generic .set [element]) (.set items)
  | frozenset {element : Descriptor} {items : List Value} (h : ∀ x ∈ items, Fits element x) :
    Fits (generic .set [element]) (.frozenset items)
  | dict {key value : Descriptor} {entries : List (Value × Value)} (hkeys : ∀ e ∈ entries, Fits key e.1)
    (hvalues : ∀ e ∈ entries, Fits value e.2) : Fits (generic .dict [key, value]) (.dict entries)
  | bareList (items : List Value) : Fits (bare .list) (.list items)
  | bareSet (items : List Value) : Fits (bare .set) (.set items)
  | bareFrozenset (items : List Value) : Fits (bare .set) (.frozenset items)
  | bareDict (entries : List (Value × Value)) : Fits (bare .dict) (.dict entries)
  | payload {origin : Container} {args : List Descriptor} {cls : ClassType} {payload : Value}
    (h : Fits (generic origin args) payload) : Fits (generic origin args) (.object cls (some payload))
  | barePayload {origin : Container} {cls : ClassType} {payload : Value} (h : Fits (bare origin) payload) :
    Fits (bare origin) (.object cls (some payload))

theorem Fits.accepts (h : Fits d v) : d.accepts v = true := by
  induction h with
  | primitive h => exact h
  | list h ih | set h ih | frozenset h ih => exact List.all_eq_true.mpr ih
  | dict hkeys hvalues ihkeys ihvalues =>
    exact List.all_eq_true.mpr fun e he => Bool.and_eq_true_iff.mpr ⟨ihkeys e he, ihvalues e he⟩
  | bareList | bareSet | bareFrozenset | bareDict => rfl
  | payload h ih => rwa [accepts_payload]
  | @barePayload origin cls payload h ih => cases origin <;> exact ih

section Contents

variable (hobject : ∀ cls payload, Fits d payload → Fits d (.object cls (some payload)))
include hobject

/-- A type that looks through objects is one of a value if it is one of what the innermost object contains. -/
theorem fits_of_listItems? {items : List Value} (hv : v.listItems? = some items) (h : Fits d (.list items)) :
    Fits d v := by
  fun_induction Value.listItems? v with
  | case1 items' =>
    obtain rfl := Option.some.inj hv
    exact h
  | case2 cls payload ih => exact hobject cls payload (ih hv)
  | case3 => exact absurd hv nofun

theorem fits_of_setItems? {items : List Value} (hv : v.setItems? = some items) (h : Fits d (.set items))
    (hfrozen : Fits d (.frozenset items)) : Fits d v := by
  fun_induction Value.setItems? v with
  | case1 items' =>
    obtain rfl := Option.some.inj hv
    exact h
  | case2 items' =>
    obtain rfl := Option.some.inj hv
    exact hfrozen
  | case3 cls payload ih => exact hobject cls payload (ih hv)
  | case4 => exact absurd hv nofun

theorem fits_of_dictEntries? {entries : List (Value × Value)} (hv : v.dictEntries? = some entries)
    (h : Fits d (.dict entries)) : Fits d v := by
  fun_induction Value.dictEntries? v with
  | case1 entries' =>
    obtain rfl := Option.some.inj hv
    exact h
  | case2 cls payload ih => exact hobject cls payload (ih hv)
  | case3 => exact absurd hv nofun

end Contents

theorem fits_of_accepts (h : d.Valid) (hv : d.accepts v = true) : Fits d v := by
  induction h generalizing v with
  | primitive cls => exact .primitive hv
  | bare origin =>
    cases origin with
    | list =>
      obtain ⟨items, hitems⟩ := Option.isSome_iff_exists.mp hv
      exact fits_of_listItems? (fun _ _ => .barePayload) hitems (.bareList items)
    | set =>
      obtain ⟨items, hitems⟩ := Option.isSome_iff_exists.mp hv
      exact fits_of_setItems? (fun _ _ => .barePayload) hitems (.bareSet items) (.bareFrozenset items)
    | dict =>
      obtain ⟨entries, hentries⟩ := Option.isSome_iff_exists.mp hv
      exact fits_of_dictEntries? (fun _ _ => .barePayload) hentries (.bareDict entries)
  | list h ih =>
    obtain ⟨items, hitems, hall⟩ := (Option.any_eq_true _ _).mp hv
    have hfits (x : Value) (hx : x ∈ items) := ih (List.all_eq_true.mp hall x hx)
    exact fits_of_listItems? (fun _ _ => .payload) hitems (.list hfits)
  | set h ih =>
    obtain ⟨items, hitems, hall⟩ := (Option.any_eq_true _ _).mp hv
    have hfits (x : Value) (hx : x ∈ items) := ih (List.all_eq_true.mp hall x hx)
    exact fits_of_setItems? (fun _ _ => .payload) hitems (.set hfits) (.frozenset hfits)
  | dict hkey hvalue ihkey ihvalue =>
    obtain ⟨entries, hentries, hall⟩ := (Option.any_eq_true _ _).mp hv
    have hfits (e : Value × Value) (he : e ∈ entries) := Bool.and_eq_true_iff.mp (List.all_eq_true.mp hall e he)
    exact fits_of_dictEntries? (fun _ _ => .payload) hentries
      (.dict (fun e he => ihkey (hfits e he).1) fun e he => ihvalue (hfits e he).2)

theorem check_iff_fits (hd : d.validate = .ok ()) : d.check v = .ok true ↔ Fits d v := by
  rw [check_eq_ok]
  exact ⟨fun h => fits_of_accepts (valid_of_validate d hd) h.2, fun h => ⟨hd, h.accepts⟩⟩

/-- Just the values that are built to a type without arity errors are of that type. If one of them has another value in
a place to which it and the type lead together, it is of the type or not as that other value is of the type that belongs
to the place. -/
theorem check_replaceAt (d : Descriptor) (hd : d.validate = .ok ()) :
    (∀ v, d.check v = .ok true ↔ Fits d v) ∧
    ∀ v, d.check v = .ok true → ∀ path s u, Leads d v path s u → v.replaceAt path u = v ∧ s.check u = .ok true ∧
      ∀ w, d.check (v.replaceAt path w) = s.check w ∧
        (Fits s w → d.check (v.replaceAt path w) = .ok true) ∧
        (¬ Fits s w → d.check (v.replaceAt path w) = .ok false) := by
  refine ⟨fun v => check_iff_fits hd, fun v hv path s u h => ?_⟩
  have hs : s.validate = .ok () := h.validate hd
  have hself : v.replaceAt path u = v := h.replaceAt_self
  have hcheck (w : Value) : d.check (v.replaceAt path w) = s.check w :=
    calc d.check (v.replaceAt path w) = .ok (s.accepts w) :=
          check_eq_ok.mpr ⟨hd, h.accepts_replaceAt (check_eq_ok.mp hv).2 w⟩
      _ = s.check w := (check_eq_ok.mpr ⟨hs, rfl⟩).symm
  refine ⟨hself, ?_, fun w => ⟨hcheck w, fun hw => ?_, fun hw => ?_⟩⟩
  · rw [← hcheck u, hself]
    exact hv
  · rw [hcheck w]
    exact (check_iff_fits hs).mpr hw
  · rw [hcheck w]
    have hfalse : s.accepts w = false :=
      Bool.eq_false_iff.mpr fun h => hw ((check_iff_fits hs).mp (check_eq_ok.mpr ⟨hs, h⟩))
    exact check_eq_ok.mpr ⟨hs, hfalse⟩

/-- A list with a dictionary in an object of a class of the program, in which a frozen set stands. -/
def nestedTexts : Value :=
  .list [.object (.user "Registry" [.builtin .dict]) (some (.dict [(.int 1, .frozenset [.str "a"]), (.int 2, .set [])]))]

def nestedTextType : Descriptor :=
  generic .list [generic .dict [ofBuiltin .int, generic .set [ofBuiltin .str]]]

/-- The text in the frozen set. -/
def innerText : List Descent := [.item 0, .payload, .value 0, .item 0]

theorem leads_innerText : Leads nestedTextType nestedTexts innerText (ofBuiltin .str) (.str "a") :=
  .listItem rfl (.payload (.value rfl (.frozensetItem rfl (.here _ _))))

theorem check_replaceAt_innerText : nestedTextType.check nestedTexts = .ok true ∧
    nestedTextType.check (nestedTexts.replaceAt innerText (.str "b")) = .ok true ∧
    nestedTextType.check (nestedTexts.replaceAt innerText .none) = .ok false := by
  obtain ⟨-, hplace⟩ := check_replaceAt nestedTextType rfl
  have hcheck : nestedTextType.check nestedTexts = .ok true := rfl
  obtain ⟨-, -, hput⟩ := hplace nestedTexts hcheck innerText (ofBuiltin .str) (.str "a") leads_innerText
  have htext : Fits (ofBuiltin .str) (.str "b") := .primitive rfl
  have hnone : ¬ Fits (ofBuiltin .str) .none := fun h => absurd h.accepts (by decide)
  exact ⟨hcheck, (hput (.str "b")).2.1 htext, (hput .none).2.2 hnone⟩

end Descriptor
end TypeWatch
