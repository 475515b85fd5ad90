import TypeWatch.Proofs.Syntax.Region
import TypeWatch.Scope.Extract

/-! # What statements add to a scope

A visit of statements adds to a scope what the statements declare that belong to the region around them
(`Grows`): a scope for each function among them, and the type of each name that is annotated, both in
their order. Lambdas and plain assignments add no types. -/
namespace TypeWatch
set_option autoImplicit false

/-! ## Bindings -/

/-- A name with an annotation: where it stands, the line from which on it counts, and the annotation. -/
structure Binding where
  place : Position
  line : Nat
  name : String
  type : String

/-- What is recorded for a binding in a region with the given last line. -/
def Binding.record (last : Nat) (b : Binding) : TypeRecord := ⟨b.name, some b.type, b.line, last⟩

/-- The binding of an annotated parameter, which counts from the first line of its function. -/
def Parameter.binding? (first : Nat) (p : Parameter) : Option Binding :=
  p.hint.map fun hint => ⟨p.span.start, first, p.name, hint.written⟩

/-- The binding that an annotated assignment to a name is. -/
def Stmt.binding? : Stmt → Option Binding
  | .annotated span (.name _ id) hint _ => some ⟨span.start, span.start.line, id, hint.written⟩
  | _ => none

/-- The bindings that belong to a region, in their order. -/
def Region.bindings (r : Region) : List Binding :=
  r.parameters.filterMap (Parameter.binding? r.first) ++ r.own.filterMap Stmt.binding?

/-- The functions that belong to a region, in their order. -/
def Region.functions (r : Region) : List Region := r.own.filterMap Stmt.function?

/-- The scope that is made of a region. -/
def Region.scope (r : Region) : Scope :=
  Scope.visitAll (r.parameters.foldl Scope.addParameter (Scope.ofLines r.first r.last)) r.body

theorem Region.scope_of_module (m : Module) (lines : Nat) : (m.region lines).scope = Scope.ofModule m lines :=
  rfl

namespace Scope

def typed (s : Scope) : List TypeRecord := s.records.filter fun r => r.type.isSome

/-! ## Growth -/

/-- What is added to a scope by statements that belong to one region. -/
structure Grows (s : Scope) (own : List Stmt) (s' : Scope) : Prop where
  first : s'.first = s.first
  last : s'.last = s.last
  children : s'.children = s.children ++ (own.filterMap Stmt.function?).map Region.scope
  typed : s'.typed = s.typed ++ (own.filterMap Stmt.binding?).map (Binding.record s.last)
  records : ∀ r ∈ s'.records, r ∈ s.records ∨
    r.last = s.last ∧ (r.first = s.first ∨ ∃ st ∈ own, r.first = st.span.start.line)

namespace Grows

variable {s s1 s' : Scope} {own own' : List Stmt}

theorem refl (s : Scope) : Grows s [] s :=
  ⟨rfl, rfl, (List.append_nil _).symm, (List.append_nil _).symm, fun _ h => Or.inl h⟩

theorem append (h : Grows s own s1) (h' : Grows s1 own' s') : Grows s (own ++ own') s' where
  first := h'.first.trans h.first
  last := h'.last.trans h.last
  children := by
    rw [h'.children, h.children, List.append_assoc, List.filterMap_append, List.map_append]
  typed := by
    rw [h'.typed, h.typed, h.last, List.append_assoc, List.filterMap_append, List.map_append]
  records r hr := by
    rcases h'.records r hr with hold | ⟨hlast, hfirst⟩
    · rcases h.records r hold with hold | ⟨hlast, hfirst⟩
      · exact Or.inl hold
      · refine Or.inr ⟨hlast, hfirst.imp_right ?_⟩
        rintro ⟨st, hst, heq⟩
        exact ⟨st, List.mem_append_left _ hst, heq⟩
    · refine Or.inr ⟨hlast.trans h.last, ?_⟩
      rcases hfirst with heq | ⟨st, hst, heq⟩
      · exact Or.inl (heq.trans h.first)
      · exact Or.inr ⟨st, List.mem_append_right _ hst, heq⟩

/-- What adds nothing of its own before what adds something. -/
theorem after (h : Grows s [] s1) (h' : Grows s1 own s') : Grows s own s' := h.append h'

/-- A statement that is neither a function nor a binding, with what its suites add. -/
theorem around {st : Stmt} (h : Grows s own s') (hf : st.function? = none) (hb : st.binding? = none) :
    Grows s (st :: own) s' where
  first := h.first
  last := h.last
  children := by rw [h.children, List.filterMap_cons_none hf]
  typed := by rw [h.typed, List.filterMap_cons_none hb]
  records r hr := by
    rcases h.records r hr with hold | ⟨hlast, hfirst⟩
    · exact Or.inl hold
    · refine Or.inr ⟨hlast, hfirst.imp_right ?_⟩
      rintro ⟨t, ht, heq⟩
      exact ⟨t, List.mem_cons_of_mem st ht, heq⟩

end Grows

/-! ## Records -/

theorem grows_add_untyped (s : Scope) (name : String) : Grows s [] (s.add name none none) where
  first := rfl
  last := rfl
  children := (List.append_nil _).symm
  typed := by simp [typed, add, records]
  records r hr := by
    rcases List.mem_append.mp hr with hr | hr
    · exact Or.inl hr
    · obtain rfl := List.mem_singleton.mp hr
      exact Or.inr ⟨rfl, Or.inl rfl⟩

theorem grows_addLambdas (s : Scope) (e : Expr) : Grows s [] (s.addLambdas e) := by
  unfold addLambdas
  induction e.lambdaParameters generalizing s with
  | nil => exact .refl s
  | cons name names ih => exact (grows_add_untyped s name).after (ih _)

theorem grows_addAllLambdas (s : Scope) (es : List Expr) : Grows s [] (s.addAllLambdas es) := by
  unfold addAllLambdas
  induction es generalizing s with
  | nil => exact .refl s
  | cons e es ih => exact (grows_addLambdas s e).after (ih _)

section Stmt

variable {s s1 s' : Scope} {st : Stmt}

theorem Grows.again (hf : st.function? = none) (hb : st.binding? = none) (h : Grows s [st] s1)
    (h' : Grows s1 [st] s') : Grows s [st] s' := by
  have hall := h.append h'
  refine ⟨hall.first, hall.last, ?_, ?_, fun r hr => (hall.records r hr).imp_right ?_⟩
  · simpa [hf] using hall.children
  · simpa [hb] using hall.typed
  · rintro ⟨hlast, hfirst⟩
    refine ⟨hlast, hfirst.imp_right ?_⟩
    rintro ⟨t, ht, heq⟩
    have hst : t = st := by simpa using ht
    exact ⟨t, List.mem_singleton.mpr hst, heq⟩

theorem grows_add (s : Scope) (name : String) (type : Option String) (hf : st.function? = none)
    (hb : st.binding? = type.map fun t => ⟨st.span.start, st.span.start.line, name, t⟩) :
    Grows s [st] (s.add name type (some st.span.start.line)) where
  first := rfl
  last := rfl
  children := by simp [add, children, hf]
  typed := by
    cases type with
    | none =>
      have hnone : st.binding? = none := hb
      simp [typed, add, records, hnone]
    | some t =>
      have hsome : st.binding? = some ⟨st.span.start, st.span.start.line, name, t⟩ := hb
      simp [typed, add, records, hsome, Binding.record]
  records r hr := by
    rcases List.mem_append.mp hr with hr | hr
    · exact Or.inl hr
    · obtain rfl := List.mem_singleton.mp hr
      exact Or.inr ⟨rfl, Or.inr ⟨st, List.mem_singleton.mpr rfl, rfl⟩⟩

theorem grows_addTarget (s : Scope) (target : Expr) (hf : st.function? = none) (hb : st.binding? = none) :
    Grows s [st] (addTarget st.span.start.line s target) := by
  unfold addTarget
  split
  · exact (grows_add s _ none hf hb).append (grows_addLambdas _ _)
  · exact (grows_addLambdas s _).around hf hb

theorem grows_addTargets (s : Scope) (targets : List Expr) (hf : st.function? = none)
    (hb : st.binding? = none) : Grows s [st] (targets.foldl (addTarget st.span.start.line) s) := by
  induction targets generalizing s with
  | nil => exact (Grows.refl s).around hf hb
  | cons target targets ih => exact (grows_addTarget s target hf hb).again hf hb (ih _)

/-- An annotated assignment binds its target if that is a name. -/
theorem grows_addHinted (s : Scope) (span : Span) (target hint : Expr) (value : Option Expr) :
    Grows s [.annotated span target hint value] (addHinted span.start.line s target hint) := by
  unfold addHinted
  split
  · exact grows_add s _ (some hint.written) rfl rfl
  · rename_i hname
    refine (Grows.refl s).around rfl ?_
    unfold Stmt.binding?
    split
    · rename_i heq
      cases heq
      exact absurd rfl (hname _ _)
    · rfl

/-- The scope of a function is a child of the one around it. -/
theorem grows_addChild (s : Scope) (f : Region) (hf : st.function? = some f) (hb : st.binding? = none) :
    Grows s [st] (s.addChild f.scope) where
  first := rfl
  last := rfl
  children := by simp [addChild, children, hf]
  typed := by simp [typed, addChild, records, hb]
  records r hr := Or.inl hr

end Stmt

/-! ## Visits -/

mutual

theorem visit_grows (s : Scope) : (st : Stmt) → Grows s (st :: st.inner) (visit s st)
  | .block _ body => (visitAll_grows s body).around rfl rfl
  | .expression _ value => (grows_addLambdas s value).around rfl rfl
  | .functionDef span _ _ parameters _ body _ =>
    (grows_addAllLambdas s _).after (grows_addChild _ ⟨span.start.line, span.stop.line, parameters, body⟩ rfl rfl)
  | .classDef _ _ _ _ body => ((grows_addAllLambdas s _).after (visitAll_grows _ body)).around rfl rfl
  | .assign _ targets value => (grows_addTargets s targets rfl rfl).append (grows_addLambdas _ value)
  | .annotated span target hint value =>
    (grows_addHinted s span target hint value).append (grows_addAllLambdas _ _)
  | .augmented _ _ _ _ => (grows_addAllLambdas s _).around rfl rfl
  | .returned _ _ => (grows_addAllLambdas s _).around rfl rfl
  | .branch _ test body orelse =>
    (((grows_addLambdas s test).after (visitAll_grows _ body)).append (visitAll_grows _ orelse)).around rfl rfl
  | .whileLoop _ test body orelse =>
    (((grows_addLambdas s test).after (visitAll_grows _ body)).append (visitAll_grows _ orelse)).around rfl rfl
  | .forLoop _ _ _ body orelse _ =>
    (((grows_addAllLambdas s _).after (visitAll_grows _ body)).append (visitAll_grows _ orelse)).around rfl rfl
  | .withBlock _ _ body _ => ((grows_addAllLambdas s _).after (visitAll_grows _ body)).around rfl rfl
  | .tryBlock _ body handlers orelse finalbody =>
    ((((visitAll_grows s body).append (visitHandlers_grows _ handlers)).append
      (visitAll_grows _ orelse)).append (visitAll_grows _ finalbody)).around rfl rfl
  | .raised _ _ _ => (grows_addAllLambdas s _).around rfl rfl
  | .outer _ _ _ => (Grows.refl s).around rfl rfl
  | .deleted _ _ => (grows_addAllLambdas s _).around rfl rfl
  | .asserted _ _ _ => (grows_addAllLambdas s _).around rfl rfl
  | .imported _ _ _ => (Grows.refl s).around rfl rfl
  | .word _ _ => (Grows.refl s).around rfl rfl

theorem visitAll_grows (s : Scope) : (ss : List Stmt) → Grows s (Stmt.ownAll ss) (visitAll s ss)
  | [] => .refl s
  | st :: ss => (visit_grows s st).append (visitAll_grows _ ss)

theorem visitHandlers_grows (s : Scope) : (hs : List Handler) →
    Grows s (Stmt.ownHandlers hs) (visitHandlers s hs)
  | [] => .refl s
  | .mk type _ body :: hs =>
    ((grows_addAllLambdas s type.toList).after (visitAll_grows _ body)).append (visitHandlers_grows _ hs)

end

/-! ## Scopes of regions -/

/-- What the parameters of a function add to its scope. -/
structure Takes (s : Scope) (ps : List Parameter) (s' : Scope) : Prop where
  first : s'.first = s.first
  last : s'.last = s.last
  children : s'.children = s.children
  typed : s'.typed = s.typed ++ (ps.filterMap (Parameter.binding? s.first)).map (Binding.record s.last)
  records : ∀ r ∈ s'.records, r ∈ s.records ∨ r.first = s.first ∧ r.last = s.last

theorem takes_addParameter (s : Scope) (p : Parameter) : Takes s [p] (s.addParameter p) where
  first := rfl
  last := rfl
  children := rfl
  typed := by
    cases hint : p.hint with
    | none => simp [typed, addParameter, add, records, Parameter.binding?, hint]
    | some e => simp [typed, addParameter, add, records, Parameter.binding?, hint, Binding.record]
  records r hr := by
    rcases List.mem_append.mp hr with hr | hr
    · exact Or.inl hr
    · obtain rfl := List.mem_singleton.mp hr
      exact Or.inr ⟨rfl, rfl⟩

theorem takes_addParameters (s : Scope) (ps : List Parameter) : Takes s ps (ps.foldl addParameter s) := by
  induction ps generalizing s with
  | nil => exact ⟨rfl, rfl, rfl, (List.append_nil _).symm, fun _ h => Or.inl h⟩
  | cons p ps ih =>
    have hone := takes_addParameter s p
    have hrest := ih (s.addParameter p)
    refine ⟨hrest.first, hrest.last, hrest.children, ?_, fun r hr => ?_⟩
    · rw [List.foldl_cons, hrest.typed, hone.typed, hone.first, hone.last, List.append_assoc, ← List.map_append,
        ← List.filterMap_append]
      rfl
    · rcases hrest.records r hr with hold | hnew
      · exact hone.records r hold
      · exact Or.inr hnew

end Scope

namespace Region

variable (r : Region)

theorem scope_takes :
    Scope.Takes (Scope.ofLines r.first r.last) r.parameters
      (r.parameters.foldl Scope.addParameter (Scope.ofLines r.first r.last)) :=
  Scope.takes_addParameters _ _

theorem scope_grows :
    Scope.Grows (r.parameters.foldl Scope.addParameter (Scope.ofLines r.first r.last)) r.own r.scope :=
  Scope.visitAll_grows _ _

theorem scope_first : r.scope.first = r.first := r.scope_grows.first.trans r.scope_takes.first

theorem scope_last : r.scope.last = r.last := r.scope_grows.last.trans r.scope_takes.last

theorem scope_children : r.scope.children = r.functions.map Region.scope := by
  rw [r.scope_grows.children, r.scope_takes.children]
  rfl

/-- The records with a type are the bindings. -/
theorem scope_typed : r.scope.typed = r.bindings.map (Binding.record r.last) := by
  rw [r.scope_grows.typed, r.scope_takes.typed, r.scope_takes.last, bindings, List.map_append]
  rfl

/-- A record holds from the first line or the line of a statement on, to the last line. -/
theorem scope_records {record : TypeRecord} (h : record ∈ r.scope.records) :
    record.last = r.last ∧ (record.first = r.first ∨ ∃ st ∈ r.own, record.first = st.span.start.line) := by
  rcases r.scope_grows.records record h with hold | ⟨hlast, hfirst⟩
  · rcases r.scope_takes.records record hold with hnone | ⟨hfirst, hlast⟩
    · exact absurd hnone List.not_mem_nil
    · exact ⟨hlast, Or.inl hfirst⟩
  · refine ⟨hlast.trans r.scope_takes.last, hfirst.imp_left fun heq => ?_⟩
    exact heq.trans r.scope_takes.first

end Region
end TypeWatch
