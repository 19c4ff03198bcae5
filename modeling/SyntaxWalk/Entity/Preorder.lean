import SyntaxWalk.Entity.Basic

/-!
# The order of entities

The order in which a walk should reach the entities of a tree, computed from the tree alone. A file
or type is followed by all it declares; a function or script by what its body declares, each
declaration after the node that it is scoped to, and then by its global declarations.
`Node.finishOrder` is the order in which a walk finishes the nodes of a body.
-/

namespace SyntaxWalk

namespace Node

mutual

/-- The nodes that are visited below and including a node, in the order they are finished, when the
node is visited itself and when it is the target of an assignment. -/
def orders : Node → List NodeId × List NodeId
  | ⟨id, kind, children, _, _⟩ =>
    let below := ordersEach children
    let visited (i : Nat) : List NodeId := (below[i]?.map (·.1)).getD []
    let target (o : Option (List NodeId × List NodeId)) : List NodeId := (o.map (·.2)).getD []
    ((kind.traversedChildren children.length).flatMap visited ++
        (if kind.isAssignment then target below.head? else []) ++ [id],
      match kind with
      | .arrayRef => visited 0 ++ (below.drop 2).flatMap (·.1)
      | .objectRef => visited 0
      | .blockExpr => target below.getLast?
      | _ => [])

def ordersEach : List Node → List (List NodeId × List NodeId)
  | [] => []
  | n :: ns => orders n :: ordersEach ns

end

/-- The nodes of a body that a walk visits, in the order it finishes them. -/
def finishOrder (n : Node) : List NodeId :=
  (orders n).1

/-- The nodes that are visited for an assignment target, which is itself not visited. -/
def targetOrder (n : Node) : List NodeId :=
  (orders n).2

end Node

namespace Entity

mutual

/-- An entity with all that is reached from it, in the order of a walk. -/
def preorder : Entity → List Entity
  | ⟨id, kind, name, body, ⟨rows⟩⟩ =>
    let below : ScopeTable (List Entity) := ⟨preorderRows rows⟩
    ⟨id, kind, name, body, ⟨rows⟩⟩ :: match kind with
      | .file | .type => below.all.flatten
      | .function | .script =>
        (body.toList.flatMap Node.finishOrder).flatMap
            (fun id => (below.under (.node id)).flatten) ++
          (below.under .global).flatten
      | .field | .custom _ => []

/-- The rows of a scope table with each entity replaced by its preorder. -/
def preorderRows : List (ScopeKey × List Entity) → List (ScopeKey × List (List Entity))
  | [] => []
  | (key, es) :: rows => (key, preorderEach es) :: preorderRows rows

def preorderEach : List Entity → List (List Entity)
  | [] => []
  | e :: es => preorder e :: preorderEach es

end

end Entity

end SyntaxWalk
