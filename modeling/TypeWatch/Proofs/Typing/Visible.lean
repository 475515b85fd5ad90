import TypeWatch.Proofs.Typing.Grounded

/-! # Names that resolution depends on

An expression shows the dotted names on both sides of `|`, those in front of the arguments of a type and in the
arguments, and those in the texts of its string literals. Resolution asks for each of them, from left to right, before
it tells anything else that is wrong, and for no other (`Expr.resolve_visible`). -/
namespace TypeWatch
set_option autoImplicit false

/-! ## Dotted names -/

/-- A name followed by attributes. -/
inductive Dotted where
  | name (id : String)
  | member (value : Dotted) (attr : String)
  deriving DecidableEq, Repr

namespace Dotted

def written : Dotted → String
  | name id => id
  | member value attr => value.written ++ "." ++ attr

/-- What is left of a dotted name without its last attributes, and the whole of it. The shortest is first. -/
def prefixes : Dotted → List Dotted
  | name id => [name id]
  | member value attr => value.prefixes ++ [member value attr]

end Dotted

/-- The attribute of a value. Only modules have any. -/
def Value.attribute? : Value → String → Option Value
  | module _ bindings, attr => bindings.lookup attr
  | _, _ => Option.none

namespace Environment

variable (env : Environment)

def value? : Dotted → Option Value
  | .name id => env.get? id
  | .member value attr => (value? value).bind (Value.attribute? · attr)

/-- The shortest part of a dotted name that has no value. -/
def missing? (d : Dotted) : Option Dotted := d.prefixes.find? fun p => (env.value? p).isNone

/-- The error that a dotted name without a value is. -/
def missingError? (d : Dotted) : Option ResolveError := (env.missing? d).map fun p => .unresolved p.written

variable {env}

theorem missing?_name (id : String) :
    env.missing? (.name id) = if (env.get? id).isNone then some (.name id) else none := List.find?_singleton

theorem missing?_member (value : Dotted) (attr : String) :
    env.missing? (.member value attr) =
      (env.missing? value).or
        (if (env.value? (.member value attr)).isNone then some (.member value attr) else none) := by
  rw [missing?, Dotted.prefixes, List.find?_append, List.find?_singleton]
  rfl

theorem missing?_eq_none {d : Dotted} : env.missing? d = none ↔ env.value? d ≠ none := by
  induction d with
  | name id => simp [missing?_name, value?, Option.ne_none_iff_isSome]
  | member value attr ih =>
    rw [missing?_member, Option.or_eq_none_iff, ih]
    cases hv : env.value? value <;> simp [value?, hv]

theorem missingError?_eq_none {d : Dotted} : env.missingError? d = none ↔ env.value? d ≠ none := by
  rw [missingError?, Option.map_eq_none_iff, missing?_eq_none]

theorem missingError?_eq_some {d : Dotted} {name : String} :
    env.missingError? d = some (.unresolved name) ↔ ∃ p, env.missing? d = some p ∧ name = p.written := by
  rw [missingError?, Option.map_eq_some_iff]
  simp only [ResolveError.unresolved.injEq, eq_comm]

theorem unresolved_of_missingError? {d : Dotted} {e : ResolveError} (h : env.missingError? d = some e) :
    ∃ name, e = .unresolved name := by
  obtain ⟨p, -, rfl⟩ := Option.map_eq_some_iff.mp h
  exact ⟨p.written, rfl⟩

end Environment

namespace Expr

def dotted? : Expr → Option Dotted
  | name _ id => some (.name id)
  | member _ value attr => value.dotted?.map (.member · attr)
  | _ => none

theorem written_of_dotted {d : Dotted} : ∀ {e : Expr}, e.dotted? = some d → e.written = d.written
  | name _ id, h => by
    obtain rfl := Option.some.inj h
    rfl
  | member _ value attr, h => by
    obtain ⟨d', hd', rfl⟩ := Option.map_eq_some_iff.mp h
    rw [written, written_of_dotted hd', Dotted.written]

variable {env : Environment} {quoted : String → Resolved}

/-- A dotted name evaluates to its value. Without one, its shortest part without a value is told. -/
theorem evaluate_of_dotted (env : Environment) {d : Dotted} : ∀ {e : Expr}, e.dotted? = some d →
    (∃ v, env.value? d = some v ∧ e.evaluate env = .ok v) ∨
      ∃ p, env.missing? d = some p ∧ e.evaluate env = .error (.unresolved p.written)
  | name _ id, h => by
    obtain rfl := Option.some.inj h
    cases hv : env.get? id with
    | some v => exact .inl ⟨v, hv, by rw [evaluate, hv]⟩
    | none => exact .inr ⟨.name id, by rw [Environment.missing?_name, hv]; rfl, by rw [evaluate, hv]; rfl⟩
  | member s value attr, h => by
    have hwritten : (member s value attr).written = d.written := written_of_dotted h
    obtain ⟨d', hd', rfl⟩ := Option.map_eq_some_iff.mp h
    rcases evaluate_of_dotted env hd' with ⟨v, hv, heval⟩ | ⟨p, hp, heval⟩
    · have hvalue : env.value? (.member d' attr) = v.attribute? attr := by rw [Environment.value?, hv, Option.bind_some]
      have hstep : (member s value attr).evaluate env =
          (v.attribute? attr).elim (.error (.unresolved (member s value attr).written)) .ok := by
        rw [evaluate, heval]
        cases v with
        | module _ bindings =>
          dsimp only [Value.attribute?, bind, Except.bind]
          cases bindings.lookup attr <;> rfl
        | _ => rfl
      cases hattr : v.attribute? attr with
      | some w => exact .inl ⟨w, by rw [hvalue, hattr], by rw [hstep, hattr]; rfl⟩
      | none =>
        refine .inr ⟨.member d' attr, ?_, by rw [hstep, hattr, hwritten]; rfl⟩
        rw [Environment.missing?_member, Environment.missing?_eq_none.mpr (by simp [hv]), hvalue, hattr]
        rfl
    · refine .inr ⟨p, by rw [Environment.missing?_member, hp]; rfl, ?_⟩
      rw [evaluate, heval]
      rfl

/-- Nothing but a dotted name has a value. -/
theorem evaluate_of_not_dotted : ∀ {e : Expr}, e.dotted? = none → ∃ reason, e.evaluate env = .error (.malformed reason)
  | member _ value attr, h => by
    obtain ⟨reason, heval⟩ := evaluate_of_not_dotted (Option.map_eq_none_iff.mp h)
    exact ⟨reason, by rw [evaluate, heval]; rfl⟩
  | constant _ _, _ | subscript _ _ _, _ | slice _ _ _ _, _ | tuple _ _, _ | list _ _, _ | set _ _, _ | dict _ _, _
  | call _ _ _, _ | keyword _ _ _, _ | starred _ _, _ | binary _ _ _ _, _ | unary _ _ _, _ | lambda _ _ _, _
  | conditional _ _ _ _, _ | comprehension _ _ _ _ _, _ | named _ _ _, _ | await _ _, _ | yield _ _ _, _ => ⟨_, rfl⟩

/-! ## Errors of unresolved names -/

@[simp] theorem unresolved?_ok (d : Descriptor) : unresolved? (.ok d) = none := rfl

@[simp] theorem unresolved?_malformed (reason : String) : unresolved? (.error (.malformed reason)) = none := rfl

@[simp] theorem unresolved?_unsupported (reason : String) : unresolved? (.error (.unsupported reason)) = none := rfl

@[simp] theorem unresolved?_unresolved (name : String) :
    unresolved? (.error (.unresolved name)) = some (.unresolved name) := rfl

theorem unresolved?_eq_some {r : Resolved} {e : ResolveError} (h : unresolved? r = some e) :
    r = .error e ∧ ∃ name, e = .unresolved name := by
  rcases r with (name | _ | _) | _
  case error.unresolved =>
    obtain rfl := Option.some.inj h
    exact ⟨rfl, name, rfl⟩
  all_goals exact absurd h nofun

end Expr

namespace Value

mutual

/-- Whether a value is a type depends on no names. -/
theorem unresolved?_descriptor : ∀ v : Value, Expr.unresolved? v.descriptor = Option.none
  | type cls => by
    rw [descriptor]
    cases cls.builtin?.bind Container.ofBuiltin? <;> rfl
  | form f => by
    rw [descriptor]
    cases Container.ofForm? f <;> cases f.builtin? <;> rfl
  | applied cls args => by
    rw [descriptor]
    cases cls.builtin?.bind Container.ofBuiltin? with
    | none => rfl
    | some origin =>
      cases h : descriptors args with
      | ok ds => rfl
      | error e => exact unresolved?_descriptors args h
  | none | bool _ | int _ | float _ | complex _ _ | str _ | bytes _ | list _ | tuple _ | set _ | frozenset _ | dict _
  | slice _ _ _ | object _ _ | module _ _ | function _ => rfl

theorem unresolved?_descriptors : ∀ (vs : List Value) {e : ResolveError}, descriptors vs = .error e →
    Expr.unresolved? (.error e) = Option.none
  | [], _, h => absurd h nofun
  | v :: vs, e, h => by
    rw [descriptors] at h
    cases hv : v.descriptor with
    | error e' =>
      rw [hv] at h
      obtain rfl : e' = e := Except.error.inj h
      rw [← hv, unresolved?_descriptor v]
    | ok d =>
      rw [hv] at h
      cases hvs : descriptors vs with
      | ok ds => exact absurd (hvs ▸ h) nofun
      | error e' =>
        obtain rfl : e' = e := Except.error.inj (hvs ▸ h)
        exact unresolved?_descriptors vs hvs

end

theorem unresolved?_argumentError (v : Value) : Expr.unresolved? (.error v.argumentError) = Option.none := by
  unfold argumentError
  split
  · split <;> rfl
  · rfl
  · rfl

end Value

namespace Expr

variable {env : Environment} {quoted : String → Resolved}

theorem unresolved?_all {results : List Resolved} (hnone : ∀ r ∈ results, unresolved? r = none) {e : ResolveError}
    (h : all results = .error e) : unresolved? (.error e) = none := by
  induction results with
  | nil => exact absurd h nofun
  | cons r results ih =>
    obtain ⟨hr, hresults⟩ := List.forall_mem_cons.mp hnone
    rw [all] at h
    cases r with
    | error e' =>
      obtain rfl : e' = e := Except.error.inj h
      exact hr
    | ok d =>
      cases hall : all results with
      | ok ds => exact absurd (hall ▸ h) nofun
      | error e' =>
        obtain rfl : e' = e := Except.error.inj (hall ▸ h)
        exact ih hresults hall

/-- Arguments are asked for their names first. -/
theorem unresolved?_apply (target : Value) (arguments : List Resolved) :
    unresolved? (apply target arguments) = arguments.findSome? unresolved? := by
  rw [apply, demandNames]
  cases h : arguments.findSome? unresolved? with
  | some e =>
    obtain ⟨r, -, hr⟩ := List.exists_of_findSome?_eq_some h
    obtain ⟨-, name, rfl⟩ := unresolved?_eq_some hr
    rfl
  | none =>
    cases target.container? with
    | none => exact target.unresolved?_argumentError
    | some origin =>
      cases hall : all arguments with
      | ok ds => rfl
      | error e => exact unresolved?_all (List.findSome?_eq_none_iff.mp h) hall

/-- An operation asks its operands for their names first, if it is `|`. -/
theorem unresolved?_operationType (e : Expr) (op : BinaryOp) (left right : Resolved) :
    unresolved? (operationType e op left right) =
      if op = .bitOr then (unresolved? left).or (unresolved? right) else none := by
  rw [operationType]
  split
  case isTrue =>
    have hfirst : [left, right].findSome? unresolved? = (unresolved? left).or (unresolved? right) := by
      rw [List.findSome?_cons, List.findSome?_singleton]
      cases unresolved? left <;> rfl
    rw [demandNames, hfirst]
    cases h : (unresolved? left).or (unresolved? right) with
    | none => rfl
    | some e =>
      obtain ⟨name, rfl⟩ : ∃ name, e = .unresolved name := by
        rcases Option.or_eq_some_iff.mp h with h | ⟨-, h⟩ <;> exact (unresolved?_eq_some h).2
      rfl
  case isFalse => rfl

theorem unresolved?_argumentResult (e : Expr) :
    unresolved? (argumentResult e (e.resolveWith quoted env)) = unresolved? (e.resolveWith quoted env) := by
  cases e <;> rfl

/-! ## What an expression shows -/

/-- A dotted name or the text of a string literal. -/
inductive Sight where
  | name (d : Dotted)
  | text (inner : String)

/-- What arguments show, if they stand behind a dotted name. -/
def behind (value : Expr) (arguments : List Sight) : List Sight :=
  value.dotted?.elim [] fun d => .name d :: arguments

mutual

/-- What an expression shows of itself, from left to right. -/
def sights : Expr → List Sight
  | name _ id => [.name (.name id)]
  | member _ value attr => (value.dotted?.map (Dotted.member · attr)).toList.map .name
  | constant _ (.string text) => [.text text]
  | subscript _ value (tuple _ elements) => value.behind (sightsOfAll elements)
  | subscript _ value index => value.behind index.sights
  | binary _ left op right => if op = .bitOr then left.sights ++ right.sights else []
  | _ => []

def sightsOfAll : List Expr → List Sight
  | [] => []
  | e :: es => e.sights ++ sightsOfAll es

end

/-- The error of a name, where `quoted` gives the types of the texts of string literals. -/
def Sight.error? (quoted : String → Resolved) (env : Environment) : Sight → Option ResolveError
  | name d => env.missingError? d
  | text inner => unresolved? (quoted inner)

theorem unresolved?_evaluate {value : Expr} {next : Value → Resolved} {arguments : List Sight}
    (h : ∀ v, unresolved? (next v) = arguments.findSome? (Sight.error? quoted env)) :
    unresolved? (value.evaluate env >>= next) = (value.behind arguments).findSome? (Sight.error? quoted env) := by
  rw [behind]
  cases hd : value.dotted? with
  | none =>
    obtain ⟨reason, heval⟩ : ∃ reason, value.evaluate env = .error (.malformed reason) := evaluate_of_not_dotted hd
    rw [heval]
    rfl
  | some d =>
    rw [Option.elim_some, List.findSome?_cons, Sight.error?, Environment.missingError?]
    rcases evaluate_of_dotted env hd with ⟨v, hv, heval⟩ | ⟨p, hp, heval⟩
    · rw [heval, Environment.missing?_eq_none.mpr (by simp [hv])]
      exact h v
    · rw [heval, hp]
      rfl

/-- A name that stands for a type by itself. -/
theorem unresolved?_evaluate_alone (value : Expr) : unresolved? (value.evaluate env >>= Value.descriptor) =
    (value.behind []).findSome? (Sight.error? quoted env) :=
  unresolved?_evaluate Value.unresolved?_descriptor

mutual

/-- The names that are told to have no value are those that an expression shows, the leftmost first. -/
theorem unresolved?_resolveWith : ∀ e : Expr,
    unresolved? (e.resolveWith quoted env) = e.sights.findSome? (Sight.error? quoted env)
  | name s id => by
    rw [resolveWith, unresolved?_evaluate_alone]
    rfl
  | member s value attr => by
    rw [resolveWith, unresolved?_evaluate_alone, behind, sights, dotted?]
    cases value.dotted? <;> rfl
  | constant s value => by
    cases value with
    | string text =>
      rw [resolveWith, constantType, sights, List.findSome?_singleton, Sight.error?]
    | _ => rfl
  | subscript s value index => by
    by_cases htuple : ∃ s' elements, index = tuple s' elements
    · obtain ⟨s', elements, rfl⟩ := htuple
      rw [resolveWith, sights]
      exact unresolved?_evaluate fun v => by rw [unresolved?_apply, findSome?_resolveAll]
    · have hno : ∀ s' elements, index = tuple s' elements → False := fun s' es h => htuple ⟨s', es, h⟩
      rw [resolveWith, sights]
      · exact unresolved?_evaluate fun v => by
          rw [unresolved?_apply, List.findSome?_singleton, unresolved?_argumentResult, unresolved?_resolveWith index]
      all_goals exact hno
  | binary s left op right => by
    rw [resolveWith, unresolved?_operationType, sights, unresolved?_resolveWith left, unresolved?_resolveWith right]
    split
    · rw [List.findSome?_append]
    · rfl
  | slice _ _ _ _ | tuple _ _ | list _ _ | set _ _ | dict _ _ | call _ _ _ | keyword _ _ _ | starred _ _ | unary _ _ _
  | lambda _ _ _ | conditional _ _ _ _ | comprehension _ _ _ _ _ | named _ _ _ | await _ _ | yield _ _ _ => rfl

theorem findSome?_resolveAll : ∀ es : List Expr,
    (resolveAll quoted env es).findSome? unresolved? = (sightsOfAll es).findSome? (Sight.error? quoted env)
  | [] => rfl
  | e :: es => by
    rw [resolveAll, sightsOfAll, List.findSome?_append, ← unresolved?_resolveWith e, ← findSome?_resolveAll es,
      List.findSome?_cons, unresolved?_argumentResult]
    cases unresolved? (e.resolveWith quoted env) <;> rfl

end

theorem mem_of_mem_behind {value : Expr} {arguments : List Sight} {inner : String}
    (h : .text inner ∈ value.behind arguments) : .text inner ∈ arguments := by
  rw [behind] at h
  cases hd : value.dotted? with
  | none => simp [hd] at h
  | some d => simpa [hd] using h

mutual

/-- The texts that an expression shows are those of literals in it. -/
theorem quotes_of_mem_sights {inner : String} : ∀ e : Expr, .text inner ∈ e.sights → e.Quotes inner
  | name _ id, h => absurd h (by simp [sights])
  | member _ value attr, h => absurd h (by simp [sights])
  | constant s value, h => by
    cases value with
    | string text =>
      obtain rfl : inner = text := Sight.text.inj (List.mem_singleton.mp h)
      exact ⟨s, .self⟩
    | _ => exact absurd h List.not_mem_nil
  | subscript s value index, h => by
    have hindex : index ∈ (subscript s value index).children := by simp [children]
    by_cases htuple : ∃ s' elements, index = tuple s' elements
    · obtain ⟨s', elements, rfl⟩ := htuple
      obtain ⟨e, he, hquotes⟩ := quotes_of_mem_sightsOfAll elements (mem_of_mem_behind h)
      exact Expr.Quotes.of_child (x := tuple s' elements) (hquotes.of_child he) hindex
    · rw [sights] at h
      · exact (quotes_of_mem_sights index (mem_of_mem_behind h)).of_child hindex
      · exact fun s' es h => htuple ⟨s', es, h⟩
  | binary s left op right, h => by
    rw [sights] at h
    split at h
    · rcases List.mem_append.mp h with h | h
      · exact (quotes_of_mem_sights left h).of_child (by simp [children])
      · exact (quotes_of_mem_sights right h).of_child (by simp [children])
    · exact absurd h List.not_mem_nil
  | slice _ _ _ _, h | tuple _ _, h | list _ _, h | set _ _, h | dict _ _, h | call _ _ _, h | keyword _ _ _, h
  | starred _ _, h | unary _ _ _, h | lambda _ _ _, h | conditional _ _ _ _, h | comprehension _ _ _ _ _, h
  | named _ _ _, h | await _ _, h | yield _ _ _, h => absurd h List.not_mem_nil

theorem quotes_of_mem_sightsOfAll {inner : String} : ∀ es : List Expr, .text inner ∈ sightsOfAll es →
    ∃ e ∈ es, e.Quotes inner
  | [], h => absurd h List.not_mem_nil
  | e :: es, h => by
    rcases List.mem_append.mp h with h | h
    · exact ⟨e, List.mem_cons_self, quotes_of_mem_sights e h⟩
    · obtain ⟨e', he', hquotes⟩ := quotes_of_mem_sightsOfAll es h
      exact ⟨e', List.mem_cons_of_mem _ he', hquotes⟩

end

end Expr

/-! ## Visible names -/

namespace Typing

/-- What a text shows of itself. A text that cannot be read shows nothing. -/
def sightsIn (text : String) : List Expr.Sight :=
  match Expr.ofText text with
  | .ok e => e.sights
  | .error _ => []

theorem refers_of_mem_sightsIn {inner text : String} (h : .text inner ∈ sightsIn text) : Refers inner text := by
  rw [sightsIn] at h
  cases he : Expr.ofText text with
  | ok e =>
    rw [he] at h
    exact ⟨e, he, e.quotes_of_mem_sights h⟩
  | error fault =>
    rw [he] at h
    exact absurd h List.not_mem_nil

/-- The dotted names that are reached from a text, from left to right. -/
def visibleIn (text : String) : List Dotted :=
  (sightsIn text).attach.flatMap fun
    | ⟨.name d, _⟩ => [d]
    | ⟨.text inner, _⟩ => visibleIn inner
termination_by text.utf8ByteSize
decreasing_by exact (refers_of_mem_sightsIn (by assumption)).size_lt

end Typing

namespace Expr

/-- The dotted names that are reached through what is shown. -/
def Sight.names : Sight → List Dotted
  | name d => [d]
  | text inner => Typing.visibleIn inner

/-- The dotted names that are reached from an expression, from left to right. -/
def visible (e : Expr) : List Dotted := e.sights.flatMap Sight.names

end Expr

namespace Typing

variable {env : Environment}

theorem visibleIn_eq (text : String) : visibleIn text = (sightsIn text).flatMap Expr.Sight.names := by
  rw [visibleIn, List.flatMap_subtype (g := Expr.Sight.names), List.unattach_attach]
  rintro (d | inner) - <;> rfl

/-- What is shown first of the names without a value is the first of them that is reached. -/
theorem findSome?_sights {sights : List Expr.Sight}
    (h : ∀ inner, .text inner ∈ sights →
      Expr.unresolved? (resolve env inner) = (visibleIn inner).findSome? env.missingError?) :
    sights.findSome? (Expr.Sight.error? (resolve env) env) =
      (sights.flatMap Expr.Sight.names).findSome? env.missingError? := by
  induction sights with
  | nil => rfl
  | cons sight sights ih =>
    have hhere : Expr.Sight.error? (resolve env) env sight = sight.names.findSome? env.missingError? := by
      cases sight with
      | name d => rw [Expr.Sight.names, List.findSome?_singleton, Expr.Sight.error?]
      | text inner => exact h inner List.mem_cons_self
    rw [List.flatMap_cons, List.findSome?_append, List.findSome?_cons, hhere,
      ih fun inner hinner => h inner (List.mem_cons_of_mem _ hinner)]
    cases sight.names.findSome? env.missingError? <;> rfl

theorem unresolved?_resolve (text : String) :
    Expr.unresolved? (resolve env text) = (visibleIn text).findSome? env.missingError? := by
  induction text using wellFounded_refers.induction with
  | _ text ih =>
    have htexts (inner : String) (h : .text inner ∈ sightsIn text) := ih inner (refers_of_mem_sightsIn h)
    rw [resolve_eq, resolveTextWith, visibleIn_eq, ← findSome?_sights htexts, sightsIn]
    cases Expr.ofText text with
    | ok e => exact e.unresolved?_resolveWith
    | error fault => rfl

end Typing

namespace Expr

variable {env : Environment}

theorem unresolved?_resolve (e : Expr) : unresolved? (e.resolve env) = e.visible.findSome? env.missingError? := by
  rw [resolve, unresolved?_resolveWith, visible]
  exact Typing.findSome?_sights fun inner _ => Typing.unresolved?_resolve inner

theorem resolve_eq_unresolved {e : Expr} {name : String} :
    e.resolve env = .error (.unresolved name) ↔ e.visible.findSome? env.missingError? = some (.unresolved name) := by
  rw [← unresolved?_resolve]
  exact ⟨fun h => by rw [h]; rfl, fun h => (unresolved?_eq_some h).1⟩

/-- Resolution fails for a name just if a dotted name that is reached from the expression has no value. What it tells
is the shortest part without a value of the first such name. -/
theorem resolve_visible (env : Environment) (e : Expr) :
    ((∃ name, e.resolve env = .error (.unresolved name)) ↔ ∃ d ∈ e.visible, env.value? d = none) ∧
    ∀ name, e.resolve env = .error (.unresolved name) ↔ ∃ before d after p, e.visible = before ++ d :: after ∧
      (∀ b ∈ before, env.value? b ≠ none) ∧ env.missing? d = some p ∧ name = p.written := by
  refine ⟨⟨fun ⟨told, h⟩ => ?_, fun ⟨d, hd, hvalue⟩ => ?_⟩, fun told => ?_⟩
  · obtain ⟨d, hd, herror⟩ := List.exists_of_findSome?_eq_some (resolve_eq_unresolved.mp h)
    refine ⟨d, hd, not_not.mp fun hvalue => ?_⟩
    simp [Environment.missingError?_eq_none.mpr hvalue] at herror
  · cases h : e.visible.findSome? env.missingError? with
    | none => exact absurd hvalue (Environment.missingError?_eq_none.mp (List.findSome?_eq_none_iff.mp h d hd))
    | some error =>
      obtain ⟨d', -, herror⟩ := List.exists_of_findSome?_eq_some h
      obtain ⟨told, rfl⟩ := Environment.unresolved_of_missingError? herror
      exact ⟨told, resolve_eq_unresolved.mpr h⟩
  · rw [resolve_eq_unresolved, List.findSome?_eq_some_iff]
    simp only [Environment.missingError?_eq_some, Environment.missingError?_eq_none]
    constructor
    · rintro ⟨before, d, after, hvisible, ⟨p, hp, hname⟩, hbefore⟩
      exact ⟨before, d, after, p, hvisible, hbefore, hp, hname⟩
    · rintro ⟨before, d, after, p, hvisible, hbefore, hp, hname⟩
      exact ⟨before, d, after, hvisible, ⟨p, hp, hname⟩, hbefore⟩

end Expr
end TypeWatch
