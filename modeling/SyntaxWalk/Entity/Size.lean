import SyntaxWalk.Entity.Basic

/-!
# Sizes of trees

The number of nodes of a body, and of entities and nodes of an entity tree.
-/

namespace SyntaxWalk

namespace Node

mutual

def size : Node → Nat
  | ⟨_, _, children, _, _⟩ => 1 + sizeEach children

def sizeEach : List Node → Nat
  | [] => 0
  | n :: ns => size n + sizeEach ns

end

end Node

namespace Entity

mutual

def size : Entity → Nat
  | ⟨_, _, _, body, ⟨rows⟩⟩ => 1 + (body.map Node.size).getD 0 + sizeRows rows

def sizeRows : List (ScopeKey × List Entity) → Nat
  | [] => 0
  | (_, es) :: rows => sizeEach es + sizeRows rows

def sizeEach : List Entity → Nat
  | [] => 0
  | e :: es => size e + sizeEach es

end

end Entity

end SyntaxWalk
