/-! Who is told of events, and what things are called. -/
namespace TypeWatch
set_option autoImplicit false

/-! ## Subscribers

They stand in the order in which they subscribed, and no number is given twice. -/

/-- Subscribers, each with the number of its subscription. -/
structure Registry (α : Type) where
  next : Nat
  entries : List (Nat × α)

namespace Registry

variable {α : Type}

def empty : Registry α := ⟨1, []⟩

def size (r : Registry α) : Nat := r.entries.length

def contains (r : Registry α) (id : Nat) : Bool := r.entries.any fun e => e.1 == id

/-- Adds a subscriber, under the number `r.next`. -/
def subscribe (r : Registry α) (a : α) : Registry α := ⟨r.next + 1, r.entries ++ [(r.next, a)]⟩

def unsubscribe (r : Registry α) (id : Nat) : Registry α :=
  { r with entries := r.entries.filter fun e => e.1 != id }

def subscribers (r : Registry α) : List α := r.entries.map Prod.snd

end Registry

/-! ## Names

A name stands for the thing that it was last given to; a thing that has lost its name is kept. -/

/-- Things that are made one after the other, and the names that they are given. -/
structure Catalogue (α : Type) where
  items : List α
  names : List (String × Nat)

namespace Catalogue

variable {α : Type}

def empty : Catalogue α := ⟨[], []⟩

/-- Adds a thing, under the number `c.items.length`. -/
def add (c : Catalogue α) (name : String) (a : α) : Catalogue α :=
  ⟨c.items ++ [a], (name, c.items.length) :: c.names.filter fun x => x.1 != name⟩

def number? (c : Catalogue α) (name : String) : Option Nat := c.names.lookup name

def item? (c : Catalogue α) (n : Nat) : Option α := c.items[n]?

def get? (c : Catalogue α) (name : String) : Option α := (c.number? name).bind c.item?

def modify (c : Catalogue α) (n : Nat) (f : α → α) : Catalogue α := { c with items := c.items.modify n f }

end Catalogue
end TypeWatch
