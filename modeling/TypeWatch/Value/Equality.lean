import TypeWatch.Value.Basic

/-! Equality of values as the watched program has it: numbers of all kinds are compared by what they
amount to, a set equals a frozen set with the same elements, and the order of elements of sets and of
entries of dictionaries does not count. Sets and dictionaries are built by it. -/
namespace TypeWatch.Value
set_option autoImplicit false

/-! ## Numbers -/

/-- The floating-point number nearest to an integer. Of two that are equally near, it is the one with an
even last bit. -/
def nearestFloat (n : Int64) : Float := .ofModel (.ofInt64 n)

/-- The real and imaginary part of a number. -/
def parts? : Value → Option (Float × Float)
  | bool b => some (if b then 1.0 else 0.0, 0.0)
  | int n => some (nearestFloat n, 0.0)
  | float x => some (x, 0.0)
  | complex re im => some (re, im)
  | _ => Option.none

/-- Whether both values are numbers and their parts are equal. -/
def sameParts (a b : Value) : Bool :=
  match a.parts?, b.parts? with
  | some (x, u), some (y, v) => x == y && u == v
  | _, _ => false

/-! ## Equality -/

mutual

def equals : Value → Value → Bool
  | none, b => match b with
    | none => true
    | _ => false
  | bool x, b => match b with
    | bool y => x == y
    | _ => sameParts (bool x) b
  | int m, b => match b with
    | int n => m == n
    | _ => sameParts (int m) b
  | float x, b => sameParts (float x) b
  | complex x y, b => sameParts (complex x y) b
  | str s, b => match b with
    | str t => s == t
    | _ => false
  | bytes xs, b => match b with
    | bytes ys => xs == ys
    | _ => false
  | list xs, b => match b with
    | list ys => equalLists xs ys
    | _ => false
  | tuple xs, b => match b with
    | tuple ys => equalLists xs ys
    | _ => false
  | set xs, b => match b with
    | set ys | frozenset ys => xs.length == ys.length && allAmong xs ys
    | _ => false
  | frozenset xs, b => match b with
    | set ys | frozenset ys => xs.length == ys.length && allAmong xs ys
    | _ => false
  | dict xs, b => match b with
    | dict ys => xs.length == ys.length && allEntriesAmong xs ys
    | _ => false
  | slice x y z, b => match b with
    | slice u v w => x.equals u && y.equals v && z.equals w
    | _ => false
  | object c p, b => match b with
    | object d q => c == d && equalOptions p q
    | _ => false
  | type c, b => match b with
    | type d => c == d
    | _ => false
  | applied c xs, b => match b with
    | applied d ys => c == d && equalLists xs ys
    | _ => false
  | form f, b => match b with
    | form g => f == g
    | _ => false
  | module m _, b => match b with
    | module n _ => m == n
    | _ => false
  | function f, b => match b with
    | function g => f == g
    | _ => false

/-- Whether two lists have equal elements in the same places. -/
def equalLists : List Value → List Value → Bool
  | [], [] => true
  | x :: xs, y :: ys => x.equals y && equalLists xs ys
  | _, _ => false

def equalOptions : Option Value → Option Value → Bool
  | Option.none, Option.none => true
  | some x, some y => x.equals y
  | _, _ => false

/-- Whether every value equals one of the others. -/
def allAmong : List Value → List Value → Bool
  | [], _ => true
  | x :: xs, ys => (ys.any fun y => x.equals y) && allAmong xs ys

/-- Whether every entry equals one of the others in key and value. -/
def allEntriesAmong : List (Value × Value) → List (Value × Value) → Bool
  | [], _ => true
  | (k, v) :: es, others =>
    (others.any fun o => k.equals o.1 && v.equals o.2) && allEntriesAmong es others

end

/-! ## Sets and dictionaries -/

/-- Adds a value at the end, unless it equals one that is there. -/
def addDistinct (items : List Value) (v : Value) : List Value :=
  if items.any fun w => w.equals v then items else items ++ [v]

/-- The values without those that equal an earlier one. -/
def distinct (items : List Value) : List Value := items.foldl addDistinct []

/-- Gives a key a value. A key that equals it stays as it is, in its place. -/
def putEntry (entries : List (Value × Value)) (key value : Value) : List (Value × Value) :=
  match entries with
  | [] => [(key, value)]
  | (k, v) :: es => if k.equals key then (k, value) :: es else (k, v) :: putEntry es key value

def setOf (items : List Value) : Value := set (distinct items)

def frozensetOf (items : List Value) : Value := frozenset (distinct items)

/-- The dictionary in which every key has the value that it is last given. -/
def dictOf (entries : List (Value × Value)) : Value :=
  dict (entries.foldl (fun acc e => putEntry acc e.1 e.2) [])

end TypeWatch.Value
