import TypeWatch.Proofs.Reading.Joined
import TypeWatch.Proofs.Reading.NestedStmt
import TypeWatch.Proofs.Scope.MovedRegion
import TypeWatch.Proofs.Scope.Table
import TypeWatch.Proofs.Source.Line

/-! # Tables of texts side by side

Text that comes after the lines of another one changes nothing on them, and its own lines are as they are alone,
but for the names that the other one declares outside of functions. -/
namespace TypeWatch
set_option autoImplicit false

/-! ## Tables of regions -/

/-- A function in a region has its lines in those of the region. -/
theorem Region.Fits.inside_le {root f : Region} (h : root.Fits) (ho : Orderly root.own) (hf : Inside root.own f) :
    root.first ≤ f.first ∧ f.last ≤ root.last := by
  obtain ⟨s, hs, g, hg, -, hfirst, hlast⟩ := ho.outermost hf
  have hstart := (h.covers s hs).1
  rw [Stmt.first_of_function hg] at hstart
  exact ⟨Nat.le_trans hstart hfirst, Nat.le_trans hlast (h.inside s hs g hg)⟩

namespace TypeTable

/-- On a line of a region the innermost region decides the types. -/
theorem get?_innermost {root : Region} (hfirst : root.first = 1) (h : root.Fits) (ho : Orderly root.own) {line : Nat}
    {r : Region} (hr : root.Innermost line r) (name : String) :
    (ofRoot root.scope).get? line name = r.typeAt line name := by
  have hcovers : root.Covers line := by
    rcases hr.belongs with rfl | hin
    · exact hr.covers
    · obtain ⟨hle, hle'⟩ := h.inside_le ho hin
      exact ⟨Nat.le_trans hle hr.covers.1, Nat.le_trans hr.covers.2 hle'⟩
  have hscope : root.scope.first = 1 := root.scope_first.trans hfirst
  obtain ⟨r', hr', hvalue⟩ := ofScope_innermost h ho hcovers
  obtain rfl := hr'.unique ho h.inOrder hr
  have hone : 1 ≤ line := hfirst ▸ hcovers.1
  rw [get?, typesAt?_ofRoot hscope hone, hvalue]
  exact Region.type_ownTypesAt hr.covers.2 name

/-- The table of a text is that of the region that its module is. -/
theorem ofText_eq (source : String) : ofText source =
    (Module.ofText source).map fun m => ofRoot (m.region (Text.lineCount source.toList)).scope := by
  rw [ofText, Scope.ofText]
  cases Module.ofText source <;> rfl

theorem exists_of_ofText {source : String} {t : TypeTable} (h : ofText source = .ok t) :
    ∃ m, Module.ofText source = .ok m ∧ t = ofRoot (m.region (Text.lineCount source.toList)).scope := by
  rw [ofText_eq] at h
  cases hm : Module.ofText source with
  | error e =>
    rw [hm] at h
    exact absurd h nofun
  | ok m =>
    rw [hm] at h
    exact ⟨m, rfl, (Except.ok.inj h).symm⟩

theorem lineEnd_region (m : Module) (lines : Nat) : (ofRoot (m.region lines).scope).lineEnd = lines :=
  (lineEnd_ofRoot (Region.scope_first (m.region lines))).trans (Region.scope_last _)

end TypeTable

/-! ## Modules side by side -/

/-- The type in the last declaration of a name that belongs to no function. -/
def Module.lastType? (m : Module) (name : String) : Option String :=
  ((((Stmt.ownAll m.body).filterMap Stmt.binding?).filter fun b => decide (name = b.name)).getLast?).map Binding.type

/-- A module whose statements are those of two others one after the other. The first one has so many lines, and the
second one is moved down behind them. -/
structure Module.Joins (m a b : Module) (n n' : Nat) (μ ν : Motion) : Prop where
  body : m.body = a.body.map (Stmt.moved μ) ++ b.body.map (Stmt.moved ν)
  still : μ.Down 0
  down : ν.Down n
  left : (a.region n).Fits ∧ Orderly (a.region n).own
  right : (b.region n').Fits ∧ Orderly (b.region n').own
  whole : (m.region (n + n')).Fits ∧ Orderly (m.region (n + n')).own
  tidy : ∃ tokens, ∀ s ∈ Stmt.ownAll a.body, Node.Tidy tokens (.stmt s)
  tidy' : ∃ tokens, ∀ s ∈ Stmt.ownAll b.body, Node.Tidy tokens (.stmt s)

namespace Module.Joins

variable {m a b : Module} {n n' : Nat} {μ ν : Motion}

theorem own_eq (h : m.Joins a b n n' μ ν) : Stmt.ownAll m.body =
    (Stmt.ownAll a.body).map (Stmt.moved μ) ++ (Stmt.ownAll b.body).map (Stmt.moved ν) := by
  rw [h.body, Stmt.ownAll_append, Stmt.ownAll_map_moved, Stmt.ownAll_map_moved]

theorem inside_iff (h : m.Joins a b n n' μ ν) {g : Region} : Inside (Stmt.ownAll m.body) g ↔
    (∃ f, Inside (Stmt.ownAll a.body) f ∧ g = f.moved μ 0) ∨ ∃ f, Inside (Stmt.ownAll b.body) f ∧ g = f.moved ν n := by
  obtain ⟨tokens, htidy⟩ := h.tidy
  obtain ⟨tokens', htidy'⟩ := h.tidy'
  rw [h.own_eq, inside_append_iff, inside_moved_iff h.still htidy, inside_moved_iff h.down htidy']

theorem bindings_eq (h : m.Joins a b n n' μ ν) : (m.region (n + n')).bindings =
    (a.region n).bindings.map (Binding.moved μ 0) ++ (b.region n').bindings.map (Binding.moved ν n) := by
  have hmoved {σ : Motion} {d : Nat} (hσ : σ.Down d) (own : List Stmt) : (own.map (Stmt.moved σ)).filterMap Stmt.binding? =
      (own.filterMap Stmt.binding?).map (Binding.moved σ d) := by
    rw [List.filterMap_map, List.map_filterMap]
    exact congrArg (List.filterMap · own) (funext (Stmt.binding?_moved hσ))
  change (Stmt.ownAll m.body).filterMap Stmt.binding? = _
  rw [h.own_eq, List.filterMap_append, hmoved h.still, hmoved h.down]
  rfl

theorem line_of_binding {lines : Nat} (h : (m.region lines).Fits) {d : Binding}
    (hd : d ∈ (m.region lines).bindings) : 1 ≤ d.line ∧ d.line ≤ lines := by
  obtain ⟨s, hs, hbinding⟩ := List.mem_filterMap.mp hd
  have hcovers := h.covers s hs
  unfold Stmt.binding? at hbinding
  split at hbinding
  · obtain rfl := Option.some.inj hbinding
    exact hcovers
  · exact absurd hbinding nofun

/-- On the lines of the first module its own declarations are known. -/
theorem typeAt_before (h : m.Joins a b n n' μ ν) {line : Nat} (hline : line ≤ n) (name : String) :
    (m.region (n + n')).typeAt line name = (a.region n).typeAt line name := by
  have hnone : ((b.region n').bindings.map (Binding.moved ν n)).filter
      (fun d => decide (d.line ≤ line ∧ name = d.name)) = [] := by
    refine List.filter_eq_nil_iff.mpr (List.forall_mem_map.mpr fun d hd => ?_)
    have hone := (line_of_binding h.right.1 hd).1
    intro hknown
    have hle : d.line + n ≤ line := (of_decide_eq_true hknown).1
    omega
  have hknown : (m.region (n + n')).known line name =
      ((a.region n).known line name).map (Binding.moved μ 0) := by
    rw [Region.known, h.bindings_eq, List.filter_append, hnone, List.append_nil, List.filter_map]
    rfl
  rw [Region.typeAt, Region.typeAt, hknown, List.getLast?_map, Option.map_map]
  rfl

/-- On the lines of the second module its declarations are known, and after them all those of the first one. -/
theorem typeAt_behind (h : m.Joins a b n n' μ ν) (line : Nat) (name : String) :
    (m.region (n + n')).typeAt (line + n) name = ((b.region n').typeAt line name).or (a.lastType? name) := by
  have hfirst : ((a.region n).bindings.map (Binding.moved μ 0)).filter
      (fun d => decide (d.line ≤ line + n ∧ name = d.name)) =
        ((a.region n).bindings.filter fun d => decide (name = d.name)).map (Binding.moved μ 0) := by
    rw [List.filter_map]
    refine congrArg _ (List.filter_congr fun d hd => ?_)
    have hlast := (line_of_binding h.left.1 hd).2
    have hle : d.line + 0 ≤ line + n := by omega
    exact decide_eq_decide.mpr (and_iff_right hle)
  have hsecond : ((b.region n').bindings.map (Binding.moved ν n)).filter
      (fun d => decide (d.line ≤ line + n ∧ name = d.name)) =
        ((b.region n').known line name).map (Binding.moved ν n) := by
    rw [List.filter_map, Region.known]
    refine congrArg _ (List.filter_congr fun d _ => ?_)
    exact decide_eq_decide.mpr (and_congr_left fun _ => Nat.add_le_add_iff_right)
  rw [Region.typeAt, Region.known, h.bindings_eq, List.filter_append, hfirst, hsecond, List.getLast?_append,
    List.getLast?_map, List.getLast?_map, Option.map_or, Option.map_map, Option.map_map]
  rfl

/-- A function of the first module is around the lines that it was around. -/
theorem innermost_before (h : m.Joins a b n n' μ ν) {line : Nat} {f : Region} (hf : Inside (Stmt.ownAll a.body) f)
    (hr : (a.region n).Innermost line f) : (m.region (n + n')).Innermost line (f.moved μ 0) := by
  obtain ⟨tokens, htidy⟩ := h.tidy
  exact hr.moved h.still (tidy_inside htidy hf) (h.inside_iff.mpr (Or.inl ⟨f, hf, rfl⟩))

theorem innermost_behind (h : m.Joins a b n n' μ ν) {line : Nat} {f : Region} (hf : Inside (Stmt.ownAll b.body) f)
    (hr : (b.region n').Innermost line f) : (m.region (n + n')).Innermost (line + n) (f.moved ν n) := by
  obtain ⟨tokens, htidy⟩ := h.tidy'
  exact hr.moved h.down (tidy_inside htidy hf) (h.inside_iff.mpr (Or.inr ⟨f, hf, rfl⟩))

/-- Lines in no function of the two modules belong to the whole. -/
theorem innermost_region (h : m.Joins a b n n' μ ν) (line : Nat) (hone : 1 ≤ line) (hline : line ≤ n + n')
    (hbefore : ∀ f, Inside (Stmt.ownAll a.body) f → ¬f.Covers line)
    (hbehind : ∀ f, Inside (Stmt.ownAll b.body) f → ¬(f.moved ν n).Covers line) :
    (m.region (n + n')).Innermost line (m.region (n + n')) := by
  refine ⟨Or.inl rfl, ⟨hone, hline⟩, fun g hg => ?_⟩
  rcases h.inside_iff.mp hg with ⟨f, hf, rfl⟩ | ⟨f, hf, rfl⟩
  · exact fun hcovers => hbefore f hf (Region.covers_moved.mp hcovers)
  · exact hbehind f hf

open TypeTable (ofRoot)

/-- The second module changes nothing on the lines of the first one. -/
theorem get?_before (h : m.Joins a b n n' μ ν) {line : Nat} (hline : line ≤ n) (name : String) :
    (ofRoot (m.region (n + n')).scope).get? line name = (ofRoot (a.region n).scope).get? line name := by
  cases Nat.eq_zero_or_pos line with
  | inl hzero =>
    subst hzero
    rfl
  | inr hone =>
    obtain ⟨f, hf, -⟩ := TypeTable.ofScope_innermost h.left.1 h.left.2 ⟨hone, hline⟩
    rw [TypeTable.get?_innermost rfl h.left.1 h.left.2 hf]
    rcases hf.belongs with rfl | hin
    · have hbehind : ∀ g, Inside (Stmt.ownAll b.body) g → ¬(g.moved ν n).Covers line := by
        intro g hg hcovers
        have hle := (h.right.1.inside_le h.right.2 hg).1
        have hfirst : g.first + n ≤ line := hcovers.1
        change 1 ≤ g.first at hle
        omega
      have hr := h.innermost_region line hone (Nat.le_add_right_of_le hline) hf.bare hbehind
      rw [TypeTable.get?_innermost rfl h.whole.1 h.whole.2 hr, h.typeAt_before hline]
    · rw [TypeTable.get?_innermost rfl h.whole.1 h.whole.2 (h.innermost_before hin hf)]
      exact Region.typeAt_moved h.still f line name

/-- In functions of the second module the types are as they are there alone. -/
theorem get?_function (h : m.Joins a b n n' μ ν) {line : Nat} {f : Region} (hf : Inside (Stmt.ownAll b.body) f)
    (hcovers : f.Covers line) (name : String) :
    (ofRoot (m.region (n + n')).scope).get? (n + line) name = (ofRoot (b.region n').scope).get? line name := by
  obtain ⟨hfirst, hlast⟩ := h.right.1.inside_le h.right.2 hf
  obtain ⟨g, hg, -⟩ := TypeTable.ofScope_innermost h.right.1 h.right.2
    ⟨Nat.le_trans hfirst hcovers.1, Nat.le_trans hcovers.2 hlast⟩
  rw [TypeTable.get?_innermost rfl h.right.1 h.right.2 hg, Nat.add_comm n line]
  rcases hg.belongs with rfl | hin
  · exact absurd hcovers (hg.bare f hf)
  · rw [TypeTable.get?_innermost rfl h.whole.1 h.whole.2 (h.innermost_behind hin hg)]
    exact Region.typeAt_moved h.down g line name

/-- Outside of functions of the second module the first one decides the types of names that have none there. -/
theorem get?_outside (h : m.Joins a b n n' μ ν) {line : Nat} (hone : 1 ≤ line) (hline : line ≤ n')
    (hbare : ∀ f, Inside (Stmt.ownAll b.body) f → ¬f.Covers line) (name : String) :
    (ofRoot (m.region (n + n')).scope).get? (n + line) name =
      ((ofRoot (b.region n').scope).get? line name).or (a.lastType? name) := by
  have hr : (b.region n').Innermost line (b.region n') := ⟨Or.inl rfl, ⟨hone, hline⟩, hbare⟩
  have hbefore : ∀ f, Inside (Stmt.ownAll a.body) f → ¬f.Covers (line + n) := by
    intro f hf hcovers
    have hle : f.last ≤ n := (h.left.1.inside_le h.left.2 hf).2
    have hlast := hcovers.2
    omega
  have hwhole := h.innermost_region (line + n) (by omega) (by omega) hbefore
    fun f hf hcovers => hbare f hf (Region.covers_moved.mp hcovers)
  rw [Nat.add_comm n line, TypeTable.get?_innermost rfl h.right.1 h.right.2 hr,
    TypeTable.get?_innermost rfl h.whole.1 h.whole.2 hwhole, h.typeAt_behind]

end Module.Joins

/-! ## Texts side by side -/

theorem Reading.tidy_ofText {source : String} {m : Module} (h : Module.ofText source = .ok m) :
    ∃ tokens, ∀ s ∈ Stmt.ownAll m.body, Node.Tidy tokens (.stmt s) := by
  obtain ⟨tokens, htokens, hm⟩ := exists_of_bind_ok h
  exact ⟨tokens, Node.tidy_ownAll _ (tidy_body htokens hm)⟩

theorem Motion.down_still : Motion.still.Down 0 := ⟨plain_still, fun _ => rfl, fun _ _ => rfl⟩

theorem Motion.down_behind (before : List Char) (p : Position) :
    (Motion.behind before p).Down (Text.lineFeeds before) :=
  ⟨plain_behind before p, fun _ => rfl, fun _ hq => congrArg Position.line (if_neg hq)⟩

section Appended

open Reading (EndsLines)

variable {s t : String} {a b : Module}

theorem lineCount_of_ends (hends : EndsLines s) (t : List Char) :
    Text.lineCount (s.toList ++ t) = Text.lineCount s.toList + Text.lineCount t ∧
      Text.lineCount s.toList = Text.lineFeeds s.toList :=
  ⟨Text.lineCount_append hends.feed _, Text.lineCount_eq_lineFeeds hends.feed⟩

theorem Module.exists_joins (ha : Module.ofText s = .ok a) (hb : Module.ofText t = .ok b) (hends : EndsLines s)
    (hclosed : Piece.QuotesClosed (Piece.split s.toList).1) : ∃ m p, Module.ofText (s ++ t) = .ok m ∧
      m.Joins a b (Text.lineCount s.toList) (Text.lineCount t.toList) .still (.behind s.toList p) := by
  obtain ⟨m, p, hm, hbody⟩ := Reading.ofText_append ha hb hends hclosed
  have hfits := Reading.ofText_fits hm
  rw [String.toList_append, (lineCount_of_ends hends _).1] at hfits
  refine ⟨m, p, hm, hbody, Motion.down_still, ?_, Reading.ofText_fits ha, Reading.ofText_fits hb, hfits,
    Reading.tidy_ofText ha, Reading.tidy_ofText hb⟩
  rw [(lineCount_of_ends hends []).2]
  exact Motion.down_behind _ p

namespace TypeTable

/-- Text after the lines of another one leaves the types there as they are. Within functions its own types are as
they are alone, and elsewhere the other text decides where it has none. A literal in three quotes that the first
text leaves open would end in the second one. -/
theorem get?_appended {S T : TypeTable} (hs : ofText s = .ok S) (ht : ofText t = .ok T) (hends : EndsLines s)
    (hclosed : Piece.QuotesClosed (Piece.split s.toList).1) :
    ∃ U a b, ofText (s ++ t) = .ok U ∧ Module.ofText s = .ok a ∧ Module.ofText t = .ok b ∧
      U.lineEnd = S.lineEnd + T.lineEnd ∧ ∀ name,
        (∀ line ≤ S.lineEnd, U.get? line name = S.get? line name) ∧
        (∀ k f, Inside (Stmt.ownAll b.body) f → f.Covers k → U.get? (S.lineEnd + k) name = T.get? k name) ∧
        ∀ k, 1 ≤ k → k ≤ T.lineEnd → (∀ f, Inside (Stmt.ownAll b.body) f → ¬f.Covers k) →
          U.get? (S.lineEnd + k) name = (T.get? k name).or (a.lastType? name) := by
  obtain ⟨a, ha, rfl⟩ := exists_of_ofText hs
  obtain ⟨b, hb, rfl⟩ := exists_of_ofText ht
  obtain ⟨m, p, hm, hjoins⟩ := Module.exists_joins ha hb hends hclosed
  refine ⟨_, a, b, by rw [ofText_eq, hm]; rfl, ha, hb, ?_, ?_⟩
  all_goals rw [String.toList_append, (lineCount_of_ends hends _).1]
  · rw [lineEnd_region, lineEnd_region, lineEnd_region]
  · rw [lineEnd_region, lineEnd_region]
    exact fun name => ⟨fun line hline => hjoins.get?_before hline name,
      fun k f hf hcovers => hjoins.get?_function hf hcovers name,
      fun k hone hline hbare => hjoins.get?_outside hone hline hbare name⟩

theorem exists_ofText {source : String} (h : (ofText source).isOk = true) : ∃ t, ofText source = .ok t := by
  cases ht : ofText source with
  | error e =>
    rw [ht] at h
    exact absurd h nofun
  | ok t => exact ⟨t, rfl⟩

/-- A text that ends in two open blocks. -/
def blocksPart : String := "x: int = 1\nclass A:\n    def f(x: str):\n        y: bytes = x\n"

/-- A text with a function, and a line outside of it. -/
def functionPart : String := "def g(x: bool):\n    return x\nprint(x)\n"

theorem get?_functionPart : ∃ S T U, ofText blocksPart = .ok S ∧ ofText functionPart = .ok T ∧
    ofText (blocksPart ++ functionPart) = .ok U ∧ U.lineEnd = S.lineEnd + T.lineEnd ∧
    (∀ line ≤ S.lineEnd, U.get? line "x" = S.get? line "x") ∧
    U.get? 4 "x" = some "str" ∧ U.get? 6 "x" = some "bool" ∧ U.get? 7 "x" = some "int" := by
  have hends : EndsLines blocksPart := by decide +kernel
  have hclosed : Piece.QuotesClosed (Piece.split blocksPart.toList).1 := by decide +kernel
  have hvalues : (ofText (blocksPart ++ functionPart)).toOption.map
      (fun U => [U.get? 4 "x", U.get? 6 "x", U.get? 7 "x"]) = some [some "str", some "bool", some "int"] := by
    decide +kernel
  have hfirst : (ofText blocksPart).isOk = true := by decide +kernel
  have hsecond : (ofText functionPart).isOk = true := by decide +kernel
  obtain ⟨S, hs⟩ := exists_ofText hfirst
  obtain ⟨T, ht⟩ := exists_ofText hsecond
  obtain ⟨U, a, b, hU, -, -, hend, hget⟩ := get?_appended hs ht hends hclosed
  rw [hU] at hvalues
  obtain ⟨h4, hmore⟩ := List.cons.inj (Option.some.inj hvalues)
  obtain ⟨h6, hmore⟩ := List.cons.inj hmore
  exact ⟨S, T, U, hs, ht, hU, hend, (hget "x").1, h4, h6, (List.cons.inj hmore).1⟩

/-- A literal in three quotes that is not closed, which is read as an empty literal and the one after it. -/
def openPart : String := "x: int = \"\"\"a\"\n"

def closedPart : String := "y: str = \"\"\"b\"\"\"\n"

theorem not_appended_open : ¬∀ (s t : String) (S T : TypeTable), ofText s = .ok S → ofText t = .ok T → EndsLines s →
    ∃ U, ofText (s ++ t) = .ok U := by
  intro hall
  have hboth : (ofText (openPart ++ closedPart)).isOk = false := by decide +kernel
  have hfirst : (ofText openPart).isOk = true := by decide +kernel
  have hsecond : (ofText closedPart).isOk = true := by decide +kernel
  obtain ⟨S, hs⟩ := exists_ofText hfirst
  obtain ⟨T, ht⟩ := exists_ofText hsecond
  obtain ⟨U, hU⟩ := hall _ _ S T hs ht (by decide +kernel)
  rw [hU] at hboth
  exact absurd hboth nofun

end TypeTable

end Appended

end TypeWatch
