/-!
# Supplies of fresh numbers

Nodes, entities and contexts are told apart by numbers that are handed out once each, in ascending
order from one.
-/

namespace SyntaxWalk

structure Supply where
  next : Nat := 1
  deriving DecidableEq

/-- The next number of a supply. -/
def Supply.take : StateM Supply Nat :=
  fun s => (s.next, ⟨s.next + 1⟩)

/-- Memories that hold a supply. -/
class Supplied (σ : Type) where
  supply : σ → Supply
  withSupply : σ → Supply → σ

/-- Draws on the supply of a larger memory. -/
def Supplied.draw {σ α : Type} [Supplied σ] (x : StateM Supply α) : StateM σ α := fun m =>
  let (a, supply) := x.run (Supplied.supply m)
  (a, Supplied.withSupply m supply)

end SyntaxWalk
