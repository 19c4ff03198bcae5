import SyntaxWalk.Entity.Basic
import SyntaxWalk.Table

/-!
# Parents of entities

During a walk each nested entity that is reached is entered with the entity that declares it; the
last parent entered for an entity counts. The ancestors of an entity are found by following the
parents until there is none, or one that is already in the chain.
-/

namespace SyntaxWalk

abbrev ParentTable := Table EntityId Entity

namespace ParentTable

def parent? (t : ParentTable) (e : Entity) : Option Entity :=
  t.get? e.id

def setParent (t : ParentTable) (child parent : Entity) : ParentTable :=
  t.insert child.id parent

theorem parent?_setParent (t : ParentTable) (child parent e : Entity) :
    (t.setParent child parent).parent? e =
      if e.id = child.id then some parent else t.parent? e :=
  t.get?_insert ..

/-- Extends a chain, kept outermost first, by at most `n` parents. -/
def extendChain (t : ParentTable) : (n : Nat) → List Entity → Option Entity → List Entity
  | 0, chain, _ => chain
  | _, chain, none => chain
  | n + 1, chain, some p =>
    if chain.contains p then chain else extendChain t n (p :: chain) (t.parent? p)

/-- The chain of enclosing entities, innermost first. -/
def ancestors (t : ParentTable) (e : Entity) : List Entity :=
  (t.extendChain t.size [] (t.parent? e)).reverse

/-- The numbers of each child and its parent, in the order of the children. -/
def pairs (t : ParentTable) : List (Nat × Nat) :=
  t.entries.map fun e => (e.1.val, e.2.id.val)

end ParentTable

end SyntaxWalk
