import Mathlib.Data.List.Forall2
import TypeWatch.Proofs.Typing.Arity
import TypeWatch.Proofs.Value.Subclass

/-! # Wider types

Whether a value has contents of some kind is decided by what it contains, and whether it is an object of a class by its
class. Both kinds of test let through more values the wider the type is (`Descriptor.Below`), so that a value of a type
is a value of all wider types (`Descriptor.check_below`). -/
namespace TypeWatch
set_option autoImplicit false

/-! ## Contents -/

namespace Container

/-- The contents of a value, in rows that are as long as the container has arguments: elements alone, and keys with
their values. -/
def rows? : Container → Value → Option (List (List Value))
  | list, v => v.listItems?.map fun items => items.map ([·])
  | set, v => v.setItems?.map fun items => items.map ([·])
  | dict, v => v.dictEntries?.map fun entries => entries.map fun e => [e.1, e.2]

theorem length_of_rows? {origin : Container} {v : Value} {rows : List (List Value)} {row : List Value}
    (h : origin.rows? v = some rows) (hrow : row ∈ rows) : row.length = origin.arity := by
  cases origin with
  | list | set | dict =>
    obtain ⟨contents, -, rfl⟩ := Option.map_eq_some_iff.mp h
    obtain ⟨x, -, rfl⟩ := List.mem_map.mp hrow
    rfl

end Container

namespace Descriptor

variable {d e : Descriptor} {origin : Container} {args : List Descriptor} {v : Value}

theorem accepts_object (v : Value) : (ofBuiltin .object).accepts v = true := ClassType.isSubtype_object _

/-- A bare container is the type of the values that have contents of its kind. -/
theorem accepts_bare (origin : Container) (v : Value) : (bare origin).accepts v = (origin.rows? v).isSome := by
  cases origin <;> rw [accepts, Container.rows?, Option.isSome_map]

theorem length_of_accepts (h : (generic origin args).accepts v = true) : args.length = origin.arity := by
  rw [accepts.eq_def] at h
  split at h <;> simp_all [Container.arity]

/-- A container with arguments is the type of the values in whose contents every row is of these types. -/
theorem accepts_generic (h : args.length = origin.arity) : (generic origin args).accepts v = true ↔
    ∃ rows, origin.rows? v = some rows ∧
      ∀ row ∈ rows, List.Forall₂ (fun d x => d.accepts x = true) args row := by
  cases origin with
  | list | set =>
    obtain ⟨element, rfl⟩ := List.length_eq_one_iff.mp h
    simp [accepts, Container.rows?, Option.any_eq_true]
  | dict =>
    obtain ⟨key, value, rfl⟩ := List.length_eq_two.mp h
    simp only [accepts, Container.rows?, Option.any_eq_true, Option.map_eq_some_iff, exists_exists_and_eq_and,
      List.forall_mem_map]
    simp

/-! ## The order of types -/

/-- Whether a type is as wide as another one or wider: it names a class above, has wider arguments, or gives up its
arguments, for which it may as well have `object`. -/
inductive Below : Descriptor → Descriptor → Prop
  | refl (d : Descriptor) : Below d d
  | trans {d e f : Descriptor} (hde : Below d e) (hef : Below e f) : Below d f
  | primitive {a b : ClassType} (h : a.isSubtype b = true) : Below (primitive a) (primitive b)
  | generic {origin : Container} {args args' : List Descriptor} (hlength : args.length = args'.length)
    (h : ∀ a a', (a, a') ∈ args.zip args' → Below a a') : Below (generic origin args) (generic origin args')
  | toBare (origin : Container) (args : List Descriptor) : Below (generic origin args) (bare origin)
  | ofBare (origin : Container) :
    Below (bare origin) (generic origin (List.replicate origin.arity (ofBuiltin .object)))
  | toObject (d : Descriptor) : Below d (ofBuiltin .object)

/-- Values of some types are of wider ones. -/
theorem forall₂_accepts {ds es : List Descriptor} {row : List Value}
    (h : List.Forall₂ (fun d e => ∀ v, d.accepts v = true → e.accepts v = true) ds es)
    (hrow : List.Forall₂ (fun d x => d.accepts x = true) ds row) :
    List.Forall₂ (fun d x => d.accepts x = true) es row := by
  induction h generalizing row with
  | nil => exact hrow
  | cons hde hs ih =>
    cases hrow with
    | cons hx hxs => exact .cons (hde _ hx) (ih hxs)

theorem forall₂_object (row : List Value) :
    List.Forall₂ (fun d x => d.accepts x = true) (List.replicate row.length (ofBuiltin .object)) row := by
  induction row with
  | nil => exact .nil
  | cons x row ih => exact .cons (accepts_object x) ih

/-- Contents of a kind are contents of objects. -/
theorem accepts_ofBare (origin : Container) (v : Value) :
    (generic origin (List.replicate origin.arity (ofBuiltin .object))).accepts v = (bare origin).accepts v := by
  rw [Bool.eq_iff_iff, accepts_generic List.length_replicate, accepts_bare, Option.isSome_iff_exists]
  constructor
  · exact fun ⟨rows, hrows, _⟩ => ⟨rows, hrows⟩
  · rintro ⟨rows, hrows⟩
    refine ⟨rows, hrows, fun row hrow => ?_⟩
    rw [← Container.length_of_rows? hrows hrow]
    exact forall₂_object row

theorem Below.accepts (h : Below d e) (hv : d.accepts v = true) : e.accepts v = true := by
  induction h generalizing v with
  | refl d => exact hv
  | trans hde hef ihde ihef => exact ihef (ihde hv)
  | primitive hab => exact ClassType.isSubtype_trans hv hab
  | generic hlength h ih =>
    have harity := length_of_accepts hv
    obtain ⟨rows, hrows, hall⟩ := (accepts_generic harity).mp hv
    refine (accepts_generic (hlength ▸ harity)).mpr ⟨rows, hrows, fun row hrow => ?_⟩
    exact forall₂_accepts (List.forall₂_iff_zip.mpr ⟨hlength, fun h v => ih _ _ h⟩) (hall row hrow)
  | toBare origin args =>
    obtain ⟨rows, hrows, -⟩ := (accepts_generic (length_of_accepts hv)).mp hv
    rw [accepts_bare, hrows]
    rfl
  | ofBare origin => rwa [accepts_ofBare]
  | toObject d => exact accepts_object v

theorem validate_ofBare (origin : Container) :
    (generic origin (List.replicate origin.arity (ofBuiltin .object))).validate = .ok () := by
  cases origin <;> rfl

/-- What is wider than a type that is allowed is allowed. -/
theorem Below.validate (h : Below d e) (hd : d.validate = .ok ()) : e.validate = .ok () := by
  induction h with
  | refl d => exact hd
  | trans hde hef ihde ihef => exact ihef (ihde hd)
  | primitive hab => rfl
  | @generic origin args args' hlength h ih =>
    obtain ⟨harity, hargs⟩ := validate_generic.mp hd
    refine validate_generic.mpr ⟨hlength ▸ harity, fun a' ha' => ?_⟩
    obtain ⟨i, hi, rfl⟩ := List.mem_iff_getElem.mp ha'
    have hi' : i < args.length := hlength ▸ hi
    have hzip : (args[i], args'[i]) ∈ args.zip args' :=
      List.mem_iff_getElem.mpr ⟨i, by simp [← hlength, hi'], List.getElem_zip⟩
    exact ih _ _ hzip (hargs _ (List.getElem_mem hi'))
  | toBare origin args => rfl
  | ofBare origin => exact validate_ofBare origin
  | toObject d => rfl

/-- A value of a type is a value of all wider ones. A bare container is the type of the same values as the container
of `object`. -/
theorem check_below :
    (∀ d e : Descriptor, d.Below e → ∀ v, d.check v = .ok true → e.check v = .ok true) ∧
    ∀ origin v, (bare origin).check v =
      (generic origin (List.replicate origin.arity (ofBuiltin .object))).check v := by
  constructor
  · intro d e h v hv
    obtain ⟨hvalid, haccepts⟩ := check_eq_ok.mp hv
    exact check_eq_ok.mpr ⟨h.validate hvalid, h.accepts haccepts⟩
  · intro origin v
    rw [check_eq_ok.mpr ⟨validate_ofBare origin, accepts_ofBare origin v⟩]
    rfl

/-- A class of dictionaries, with a class of what they hold and one below that. -/
def registry : ClassType := .user "Registry" [.builtin .dict]

def entry : ClassType := .user "Entry" []

def labelled : ClassType := .user "Labelled" [.builtin .str, entry]

def registered : Value := .object registry (some (.dict [(.str "a", .object labelled none)]))

theorem below_registered : (generic .dict [ofBuiltin .str, primitive labelled]).Below
    (generic .dict [ofBuiltin .object, primitive entry]) := by
  refine .generic rfl fun a a' h => ?_
  simp only [List.zip_cons_cons, List.zip_nil_right, List.mem_cons, Prod.mk.injEq, List.not_mem_nil, or_false] at h
  rcases h with ⟨rfl, rfl⟩ | ⟨rfl, rfl⟩
  · exact .toObject _
  · exact .primitive (by decide)

theorem check_below_registered :
    (generic .dict [ofBuiltin .str, primitive labelled]).check registered = .ok true ∧
    (generic .dict [ofBuiltin .object, primitive entry]).check registered = .ok true ∧
    (bare .dict).check registered = (generic .dict [ofBuiltin .object, ofBuiltin .object]).check registered :=
  ⟨rfl, check_below.1 _ _ below_registered registered rfl, check_below.2 .dict registered⟩

end Descriptor
end TypeWatch
