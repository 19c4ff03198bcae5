import SyntaxWalk.Node.Kind
import SyntaxWalk.Position
import SyntaxWalk.Supply
import SyntaxWalk.Value

/-!
# Nodes of a body

A node owns its children and is identified by its number: two nodes are the same when their numbers
are, whatever they hold. The builders take the number from a supply, after those of the children.
-/

namespace SyntaxWalk

structure NodeId where
  val : Nat
  deriving DecidableEq

def NodeId.display (i : NodeId) : String :=
  s!"n{i.val}"

structure Node where
  id : NodeId
  kind : NodeKind
  children : List Node
  value : Option Value := none
  position : Option Position := none

namespace Node

/-- Sameness of nodes. -/
instance : BEq Node where
  beq a b := a.id == b.id

def new (kind : NodeKind) (children : List Node) : StateM Supply Node := do
  return { id := ⟨← Supply.take⟩, kind, children }

def leaf (kind : NodeKind) : StateM Supply Node :=
  new kind []

def withValue (n : Node) (v : Value) : Node :=
  { n with value := some v }

def withPosition (n : Node) (p : Position) : Node :=
  { n with position := some p }

def constant (v : Value) : StateM Supply Node :=
  return (← leaf .constant).withValue v

def var (name : String) : StateM Supply Node :=
  return (← leaf .var).withValue (.str name)

/-- The operator of an expression, a child of its own. -/
def operator (op : String) : StateM Supply Node :=
  constant (.str op)

def childCount (n : Node) : Nat :=
  n.children.length

def child? (n : Node) (i : Nat) : Option Node :=
  n.children[i]?

def lastChild? (n : Node) : Option Node :=
  n.children.getLast?

/-- Whether the number of children fits the kind; kinds of a front end take any number. -/
def isWellFormed (n : Node) : Bool :=
  n.kind.arity.all (·.accepts n.childCount)

end Node

end SyntaxWalk
