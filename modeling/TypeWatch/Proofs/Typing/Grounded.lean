import Mathlib.Order.WellFounded
import TypeWatch.Proofs.Reading.Gathered
import TypeWatch.Typing.Resolve

/-! # Resolution ends

A string literal that stands in a text is shorter than the text (`Expr.size_lt_of_ofText`), so that a text refers to
shorter texts alone (`Typing.wellFounded_refers`). What a text denotes is hence what the expression denotes that is
read from it (`Typing.resolve_of_ofText`), and no more texts are read, one within the other, than the first one has
bytes (`Typing.resolve_ends`). -/
namespace TypeWatch
set_option autoImplicit false

namespace Expr

/-! ## Literals of an expression -/

/-- Whether a string literal of an expression stands for a text. -/
def Quotes (e : Expr) (inner : String) : Prop := ∃ s, (Node.expr e).Has (.expr (.constant s (.string inner)))

theorem Quotes.of_child {e x : Expr} {inner : String} (h : x.Quotes inner) (hx : x ∈ e.children) : e.Quotes inner :=
  h.imp fun _ hs => (Node.has_child hx).trans hs

/-- The constant that an expression is. -/
def constant? : Expr → Option Constant
  | constant _ value => some value
  | _ => none

section Quoted

variable {quoted quoted' : String → Resolved} {env : Environment}

mutual

/-- Resolution asks for the texts of string literals only. -/
theorem resolveWith_congr : ∀ e : Expr, (∀ inner, e.Quotes inner → quoted inner = quoted' inner) →
    e.resolveWith quoted env = e.resolveWith quoted' env
  | name _ _, _ | member _ _ _, _ => rfl
  | constant s value, h => by
    cases value with
    | string text => exact h text ⟨s, .self⟩
    | _ => rfl
  | subscript s value index, h => by
    have hindex (inner : String) (hinner : index.Quotes inner) : quoted inner = quoted' inner :=
      h inner (hinner.of_child (by simp [children]))
    by_cases htuple : ∃ s' elements, index = tuple s' elements
    · obtain ⟨s', elements, rfl⟩ := htuple
      rw [resolveWith, resolveWith,
        resolveAll_congr elements fun e he inner hinner => hindex inner (hinner.of_child he)]
    · have hno : ∀ s' elements, index = tuple s' elements → False := fun s' es h => htuple ⟨s', es, h⟩
      rw [resolveWith, resolveWith, resolveWith_congr index hindex]
      all_goals exact hno
  | binary s left op right, h => by
    rw [resolveWith, resolveWith,
      resolveWith_congr left fun inner hinner => h inner (hinner.of_child (by simp [children])),
      resolveWith_congr right fun inner hinner => h inner (hinner.of_child (by simp [children]))]
  | slice _ _ _ _, _ | tuple _ _, _ | list _ _, _ | set _ _, _ | dict _ _, _ | call _ _ _, _ | keyword _ _ _, _
  | starred _ _, _ | unary _ _ _, _ | lambda _ _ _, _ | conditional _ _ _ _, _ | comprehension _ _ _ _ _, _
  | named _ _ _, _ | await _ _, _ | yield _ _ _, _ => rfl

theorem resolveAll_congr : ∀ es : List Expr, (∀ e ∈ es, ∀ inner, e.Quotes inner → quoted inner = quoted' inner) →
    resolveAll quoted env es = resolveAll quoted' env es
  | [], _ => rfl
  | e :: es, h => by
    obtain ⟨he, hes⟩ := List.forall_mem_cons.mp h
    rw [resolveAll, resolveAll, resolveWith_congr e he, resolveAll_congr es hes]

end

/-- A name with a text for its value is no type, whatever texts denote. -/
theorem resolveWith_of_str {e : Expr} {text : String} (h : e.evaluate env = .ok (.str text)) :
    e.resolveWith quoted env = .error (.malformed ((Value.str text).text ++ " is not a type")) := by
  cases e with
  | name | member =>
    rw [resolveWith, h]
    rfl
  | _ => exact absurd h nofun

end Quoted

end Expr

namespace Typing

variable {env : Environment}

/-! ## Texts that refer to others -/

/-- Whether a text stands in a string literal of another one. -/
def Refers (inner text : String) : Prop := ∃ e, Expr.ofText text = .ok e ∧ e.Quotes inner

theorem Refers.size_lt {inner text : String} (h : Refers inner text) : inner.utf8ByteSize < text.utf8ByteSize := by
  obtain ⟨e, he, s, hin⟩ := h
  exact Expr.size_lt_of_ofText he hin rfl

theorem wellFounded_refers : WellFounded Refers :=
  Subrelation.wf (fun h => Refers.size_lt h) (measure String.utf8ByteSize).wf

theorem resolveTextWith_congr {quoted quoted' : String → Resolved} {text : String}
    (h : ∀ inner, Refers inner text → quoted inner = quoted' inner) :
    resolveTextWith quoted env text = resolveTextWith quoted' env text := by
  unfold resolveTextWith
  cases he : Expr.ofText text with
  | error fault => rfl
  | ok e => exact Expr.resolveWith_congr e fun inner hinner => h inner ⟨e, he, hinner⟩

/-- No text is refused for its length. -/
theorem resolve_eq (env : Environment) (text : String) :
    resolve env text = resolveTextWith (resolve env) env text := by
  rw [resolve]
  exact resolveTextWith_congr fun inner hinner => dif_pos hinner.size_lt

/-- A text denotes what the expression denotes that is read from it. -/
theorem resolve_of_ofText {text : String} {e : Expr} (h : Expr.ofText text = .ok e) :
    resolve env text = e.resolve env := by
  rw [resolve_eq, resolveTextWith, h]
  rfl

/-! ## Depth -/

/-- Resolution that reads a number of texts one within the other, and asks for what else they refer to. -/
def resolveWithin (beyond : String → Resolved) (env : Environment) : Nat → String → Resolved
  | 0, text => beyond text
  | n + 1, text => resolveTextWith (resolveWithin beyond env n) env text

theorem resolveWithin_eq (beyond : String → Resolved) {n : Nat} {text : String} (h : text.utf8ByteSize < n) :
    resolveWithin beyond env n text = resolve env text := by
  induction n generalizing text with
  | zero => exact absurd h (Nat.not_lt_zero _)
  | succ n ih =>
    rw [resolveWithin, resolve_eq]
    exact resolveTextWith_congr fun inner hinner => ih (Nat.lt_of_lt_of_le hinner.size_lt (Nat.le_of_lt_succ h))

/-- Every text has a meaning, or an error. Each string constant of a text is shorter than the text, so that no chain
of texts that refer to each other goes on for ever; resolution follows it to its end, which it reaches within as many
texts as the first one has bytes, and one more. The text that a name is bound to is not read. -/
theorem resolve_ends (env : Environment) :
    (∀ text e, Expr.ofText text = .ok e → ∀ s value inner, (Node.expr e).Has (.expr (.constant s value)) →
      value.text? = some inner → inner.utf8ByteSize < text.utf8ByteSize) ∧
    WellFounded Refers ∧
    (∀ text, resolve env text = resolveTextWith (resolve env) env text) ∧
    (∀ beyond n text, text.utf8ByteSize < n → resolveWithin beyond env n text = resolve env text) ∧
    ∀ (e : Expr) (text : String), e.evaluate env = .ok (.str text) → ∀ quoted,
      e.resolveWith quoted env = .error (.malformed ((Value.str text).text ++ " is not a type")) := by
  refine ⟨?_, wellFounded_refers, resolve_eq env, ?_, ?_⟩
  · intro text e he s value inner hin hinner
    exact Expr.size_lt_of_ofText he hin hinner
  · exact fun beyond n text h => resolveWithin_eq beyond h
  · exact fun e text h quoted => Expr.resolveWith_of_str h

/-- Two literals side by side, one of them with an escape, that refer to a text with a literal. -/
def referringText : String := " 'li\\x73t' \"['int']\" "

/-- Names of which one is bound to a text. -/
def textEnvironment : Environment := ⟨.ofList [("t", .str "int")], .empty⟩

theorem exists_referring : ∃ s, Expr.ofText referringText = .ok (.constant s (.string "list['int']")) := by
  have hread : (Expr.ofText referringText).toOption.bind Expr.constant? = some (.string "list['int']") := by
    decide +kernel
  obtain ⟨e, he, hvalue⟩ := Option.bind_eq_some_iff.mp hread
  cases hcases : Expr.ofText referringText with
  | error fault =>
    rw [hcases] at he
    exact absurd he nofun
  | ok e' =>
    rw [hcases] at he
    obtain rfl := Option.some.inj he
    cases e' with
    | constant s value =>
      obtain rfl := Option.some.inj hvalue
      exact ⟨s, rfl⟩
    | _ => exact absurd hvalue nofun

theorem resolve_ends_referring : ∃ s, Expr.ofText referringText = .ok (.constant s (.string "list['int']")) ∧
    "list['int']".utf8ByteSize < referringText.utf8ByteSize ∧
    resolveWithin (fun _ => .error (.malformed "")) textEnvironment 30 referringText =
      resolve textEnvironment referringText ∧
    (Expr.name default "t").resolveWith (resolve textEnvironment) textEnvironment =
      .error (.malformed ((Value.str "int").text ++ " is not a type")) := by
  obtain ⟨hsize, -, -, hdepth, hname⟩ := resolve_ends textEnvironment
  obtain ⟨s, hs⟩ := exists_referring
  exact ⟨s, hs, hsize _ _ hs s _ _ .self rfl, hdepth _ _ _ (by decide), hname _ _ rfl _⟩

end Typing

end TypeWatch
