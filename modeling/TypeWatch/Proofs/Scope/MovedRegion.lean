import TypeWatch.Proofs.Scope.Latest
import TypeWatch.Proofs.Syntax.Moved
import TypeWatch.Proofs.Syntax.Node

/-! # Regions that are moved

A region that is moved down declares the same types on its lines (`Region.typeAt_moved`), and has the functions
that it had (`inside_moved_iff`). Where statements follow others, the last of their bindings decides first
(`Region.typeAt_append`). -/
namespace TypeWatch
set_option autoImplicit false

/-! ## Lines -/

/-- A motion that takes places some lines down. The first place is no end of a node. -/
structure Motion.Down (μ : Motion) (n : Nat) : Prop where
  plain : μ.Plain
  start : ∀ p, (μ.start p).line = p.line + n
  stop : ∀ p, p ≠ .first → (μ.stop p).line = p.line + n

def Binding.moved (μ : Motion) (n : Nat) (b : Binding) : Binding := ⟨μ.start b.place, b.line + n, b.name, b.type⟩

def Region.moved (μ : Motion) (n : Nat) (r : Region) : Region :=
  ⟨r.first + n, r.last + n, r.parameters.map (Parameter.moved μ), r.body.map (Stmt.moved μ)⟩

variable {μ : Motion} {n : Nat}

theorem Region.covers_moved {r : Region} {line : Nat} : (r.moved μ n).Covers (line + n) ↔ r.Covers line :=
  and_congr Nat.add_le_add_iff_right Nat.add_le_add_iff_right

/-! ## Statements of a region -/

namespace Stmt

mutual

theorem inner_moved : ∀ s : Stmt, (s.moved μ).inner = s.inner.map (Stmt.moved μ)
  | block _ body | classDef _ _ _ _ body | withBlock _ _ body _ => ownAll_moved body
  | branch _ _ body orelse | whileLoop _ _ body orelse | forLoop _ _ _ body orelse _ => by
    rw [moved, inner, inner, ownAll_moved body, ownAll_moved orelse, List.map_append]
  | tryBlock _ body handlers orelse finalbody => by
    rw [moved, inner, inner, ownAll_moved body, ownHandlers_moved handlers, ownAll_moved orelse,
      ownAll_moved finalbody, List.map_append, List.map_append, List.map_append]
  | expression _ _ | functionDef _ _ _ _ _ _ _ | assign _ _ _ | annotated _ _ _ _ | augmented _ _ _ _
  | returned _ _ | raised _ _ _ | outer _ _ _ | deleted _ _ | asserted _ _ _ | imported _ _ _ | word _ _ => rfl

theorem ownAll_moved : ∀ ss : List Stmt, ownAll (movedList μ ss) = (ownAll ss).map (Stmt.moved μ)
  | [] => rfl
  | s :: ss => by
    rw [movedList, ownAll, ownAll, inner_moved s, ownAll_moved ss, List.cons_append, List.cons_append, List.map_cons,
      List.map_append]

theorem ownHandlers_moved : ∀ hs : List Handler,
    ownHandlers (Handler.movedList μ hs) = (ownHandlers hs).map (Stmt.moved μ)
  | [] => rfl
  | .mk _ _ body :: hs => by
    rw [Handler.movedList, Handler.moved, ownHandlers, ownHandlers, ownAll_moved body, ownHandlers_moved hs,
      List.map_append]

end

theorem ownAll_map_moved (ss : List Stmt) : ownAll (ss.map (Stmt.moved μ)) = (ownAll ss).map (Stmt.moved μ) := by
  rw [← movedList_eq, ownAll_moved]

theorem binding?_moved (hμ : μ.Down n) (s : Stmt) : (s.moved μ).binding? = s.binding?.map (Binding.moved μ n) := by
  cases s with
  | annotated span target hint value =>
    cases target with
    | name _ id =>
      simp only [moved, Expr.moved, binding?, Option.map_some, Binding.moved, Expr.written_moved (hμ.plain.keeps _),
        Span.moved, hμ.start]
    | _ => rfl
  | _ => rfl

/-- The function that a moved statement defines. -/
theorem function?_moved (hμ : μ.Down n) {s : Stmt} (hstop : s.span.stop ≠ .first) :
    (s.moved μ).function? = s.function?.map (Region.moved μ n) := by
  cases s with
  | functionDef span name decorators parameters returns body isAsync =>
    have hlast : (μ.stop span.stop).line = span.stop.line + n := hμ.stop _ hstop
    simp only [moved, function?, Option.map_some, Region.moved, Span.moved, hμ.start, hlast, movedList_eq]
  | _ => rfl

end Stmt

namespace Region

theorem own_moved (r : Region) : (r.moved μ n).own = r.own.map (Stmt.moved μ) := Stmt.ownAll_map_moved r.body

theorem binding?_moved (hμ : μ.Down n) (first : Nat) (p : Parameter) :
    (p.moved μ).binding? (first + n) = (p.binding? first).map (Binding.moved μ n) := by
  obtain ⟨span, kind, name, hint, standard⟩ := p
  cases hint with
  | none => rfl
  | some e =>
    simp only [Parameter.moved, Parameter.binding?, Parameter.hint, Parameter.span, Parameter.name, Expr.movedOption,
      Option.map_some, Expr.written_moved (hμ.plain.keeps _), Binding.moved, Span.moved]

theorem bindings_moved (hμ : μ.Down n) (r : Region) :
    (r.moved μ n).bindings = r.bindings.map (Binding.moved μ n) := by
  have hparameter : Parameter.binding? (r.first + n) ∘ Parameter.moved μ =
      Option.map (Binding.moved μ n) ∘ Parameter.binding? r.first := funext fun p => binding?_moved hμ r.first p
  have hstmt : Stmt.binding? ∘ Stmt.moved μ = Option.map (Binding.moved μ n) ∘ Stmt.binding? :=
    funext fun s => Stmt.binding?_moved hμ s
  rw [bindings, bindings, own_moved, List.map_append, List.map_filterMap, List.map_filterMap, Region.moved,
    List.filterMap_map, List.filterMap_map, hparameter, hstmt]
  rfl

/-- The type that the last binding of a name has that counts on a line. -/
def typeAt (r : Region) (line : Nat) (name : String) : Option String :=
  ((r.known line name).getLast?).map Binding.type

theorem typeAt_moved (hμ : μ.Down n) (r : Region) (line : Nat) (name : String) :
    (r.moved μ n).typeAt (line + n) name = r.typeAt line name := by
  have hknown : (r.moved μ n).known (line + n) name = (r.known line name).map (Binding.moved μ n) := by
    rw [known, known, bindings_moved hμ, List.filter_map]
    congr 2
    funext b
    exact decide_eq_decide.mpr (and_congr_left fun _ => Nat.add_le_add_iff_right)
  rw [typeAt, typeAt, hknown, List.getLast?_map, Option.map_map]
  rfl

end Region

/-! ## Functions -/

namespace Node

variable {tokens : List Token}

theorem Tidy.suite {s : Stmt} (h : Tidy tokens (stmt s)) {ss : List Stmt} (hss : ss ∈ suites s) :
    ∀ t ∈ ss, Tidy tokens (stmt t) :=
  fun _ ht => h.part ((sublist_of_suite hss).subset (mem_ofSuite.mpr ht))

mutual

theorem tidy_inner : ∀ s : Stmt, Tidy tokens (stmt s) → ∀ t ∈ s.inner, Tidy tokens (stmt t)
  | .block _ body, h | .classDef _ _ _ _ body, h | .withBlock _ _ body _, h =>
    tidy_ownAll body (h.suite List.mem_cons_self)
  | .branch _ _ body orelse, h | .whileLoop _ _ body orelse, h | .forLoop _ _ _ body orelse _, h =>
    List.forall_mem_append.mpr ⟨tidy_ownAll body (h.suite List.mem_cons_self),
      tidy_ownAll orelse (h.suite (List.mem_cons_of_mem _ List.mem_cons_self))⟩
  | .tryBlock _ body handlers orelse finalbody, h => by
    have hbody := tidy_ownAll body (h.suite List.mem_cons_self)
    have horelse := tidy_ownAll orelse (h.suite (by simp [suites]))
    have hfinal := tidy_ownAll finalbody (h.suite (by simp [suites]))
    have hhandlers := tidy_ownHandlers handlers fun handler hh =>
      h.suite (List.mem_append_left _ (List.mem_cons_of_mem _ (List.mem_map_of_mem hh)))
    refine List.forall_mem_append.mpr ⟨List.forall_mem_append.mpr ⟨?_, horelse⟩, hfinal⟩
    exact List.forall_mem_append.mpr ⟨hbody, hhandlers⟩
  | .expression _ _, _ | .functionDef _ _ _ _ _ _ _, _ | .assign _ _ _, _ | .annotated _ _ _ _, _
  | .augmented _ _ _ _, _ | .returned _ _, _ | .raised _ _ _, _ | .outer _ _ _, _ | .deleted _ _, _
  | .asserted _ _ _, _ | .imported _ _ _, _ | .word _ _, _ => nofun

theorem tidy_ownAll : ∀ ss : List Stmt, (∀ s ∈ ss, Tidy tokens (stmt s)) →
    ∀ t ∈ Stmt.ownAll ss, Tidy tokens (stmt t)
  | [], _ => nofun
  | s :: ss, h => by
    obtain ⟨hs, hss⟩ := List.forall_mem_cons.mp h
    exact List.forall_mem_append.mpr ⟨List.forall_mem_cons.mpr ⟨hs, tidy_inner s hs⟩, tidy_ownAll ss hss⟩

theorem tidy_ownHandlers : ∀ hs : List Handler, (∀ h ∈ hs, ∀ s ∈ bodyOf h, Tidy tokens (stmt s)) →
    ∀ t ∈ Stmt.ownHandlers hs, Tidy tokens (stmt t)
  | [], _ => nofun
  | .mk _ _ body :: hs, h => by
    obtain ⟨hbody, hhs⟩ := List.forall_mem_cons.mp h
    exact List.forall_mem_append.mpr ⟨tidy_ownAll body hbody, tidy_ownHandlers hs hhs⟩

end

/-- No node ends at the first place. -/
theorem Tidy.stop_ne_first {s : Stmt} (h : Tidy tokens (stmt s)) : s.span.stop ≠ .first := by
  intro hfirst
  have hlt : s.span.start < s.span.stop := h.marked.lt
  rw [hfirst] at hlt
  exact absurd hlt.1 (Nat.not_lt_zero _)

/-- The statements of a tidy function are tidy. -/
theorem Tidy.function {s : Stmt} (h : Tidy tokens (stmt s)) {f : Region} (hf : s.function? = some f) :
    ∀ t ∈ f.own, Tidy tokens (stmt t) := by
  cases s with
  | functionDef =>
    obtain rfl := Option.some.inj hf
    exact tidy_ownAll _ (h.suite List.mem_cons_self)
  | _ => exact absurd hf nofun

end Node

section Inside

variable {tokens : List Token} {own : List Stmt}

/-- Moved statements have the functions that they had, which are moved. -/
theorem inside_moved_iff (hμ : μ.Down n) (htidy : ∀ s ∈ own, Node.Tidy tokens (.stmt s)) {g : Region} :
    Inside (own.map (Stmt.moved μ)) g ↔ ∃ f, Inside own f ∧ g = f.moved μ n := by
  constructor
  · intro h
    generalize hown : own.map (Stmt.moved μ) = moved at h
    induction h generalizing own with
    | @here _ t g ht hg =>
      subst hown
      obtain ⟨s, hs, rfl⟩ := List.mem_map.mp ht
      rw [Stmt.function?_moved hμ (htidy s hs).stop_ne_first] at hg
      obtain ⟨f, hf, rfl⟩ := Option.map_eq_some_iff.mp hg
      exact ⟨f, .here hs hf, rfl⟩
    | @within _ t k g ht hk _ ih =>
      subst hown
      obtain ⟨s, hs, rfl⟩ := List.mem_map.mp ht
      rw [Stmt.function?_moved hμ (htidy s hs).stop_ne_first] at hk
      obtain ⟨f, hf, rfl⟩ := Option.map_eq_some_iff.mp hk
      obtain ⟨g', hg', rfl⟩ := ih ((htidy s hs).function hf) f.own_moved.symm
      exact ⟨g', .within hs hf hg', rfl⟩
  · rintro ⟨f, hf, rfl⟩
    have hmoved {s : Stmt} {f : Region} (hs : Node.Tidy tokens (.stmt s)) (hf : s.function? = some f) :
        (s.moved μ).function? = some (f.moved μ n) := by
      rw [Stmt.function?_moved hμ hs.stop_ne_first, hf, Option.map_some]
    induction hf with
    | here hs hf => exact .here (List.mem_map_of_mem hs) (hmoved (htidy _ hs) hf)
    | within hs hf _ ih =>
      refine .within (List.mem_map_of_mem hs) (hmoved (htidy _ hs) hf) ?_
      rw [Region.own_moved]
      exact ih ((htidy _ hs).function hf)

theorem tidy_inside (htidy : ∀ s ∈ own, Node.Tidy tokens (.stmt s)) {f : Region} (hf : Inside own f) :
    ∀ s ∈ f.own, Node.Tidy tokens (.stmt s) := by
  induction hf with
  | here hs hf => exact (htidy _ hs).function hf
  | within hs hf _ ih => exact ih ((htidy _ hs).function hf)

/-- A function around a line is around it where it is moved to. -/
theorem Region.Innermost.moved (hμ : μ.Down n) {root root' f : Region} {line : Nat} (h : root.Innermost line f)
    (htidy : ∀ s ∈ f.own, Node.Tidy tokens (.stmt s)) (hf : Inside root'.own (f.moved μ n)) :
    root'.Innermost (line + n) (f.moved μ n) := by
  refine ⟨Or.inr hf, covers_moved.mpr h.covers, ?_⟩
  rw [own_moved]
  intro g hg
  obtain ⟨k, hk, rfl⟩ := (inside_moved_iff hμ htidy).mp hg
  exact fun hcovers => h.bare k hk (covers_moved.mp hcovers)

theorem inside_append_iff {own' : List Stmt} {f : Region} : Inside (own ++ own') f ↔ Inside own f ∨ Inside own' f := by
  have hof {left right : List Stmt} (hsub : ∀ s ∈ left, s ∈ right) (h : Inside left f) : Inside right f := by
    cases h with
    | here hs hf => exact .here (hsub _ hs) hf
    | within hs hf hin => exact .within (hsub _ hs) hf hin
  constructor
  · intro h
    cases h with
    | here hs hf => exact (List.mem_append.mp hs).imp (.here · hf) (.here · hf)
    | within hs hf hin => exact (List.mem_append.mp hs).imp (.within · hf hin) (.within · hf hin)
  · rintro (h | h)
    · exact hof (fun s hs => List.mem_append_left _ hs) h
    · exact hof (fun s hs => List.mem_append_right _ hs) h

end Inside

end TypeWatch
