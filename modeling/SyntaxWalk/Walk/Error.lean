import SyntaxWalk.Entity.Basic
import SyntaxWalk.Node.Printer

/-!
# Errors of a walk

Every error ends the walk that met it. It names the kind that was not understood or was malformed,
and where the source of it is, if that is known.
-/

namespace SyntaxWalk

inductive Walk.Error where
  | unhandledEntity (kind : EntityKind) (name : String)
  | unhandledNode (kind : NodeKind) (position : Option Position)
  | malformedNode (kind : NodeKind) (expected : Arity) (found : Nat) (position : Option Position)
  /-- The target has no shape that can be assigned to; `rendered` is the whole assignment. -/
  | unsupportedAssignment (target : NodeKind) (rendered : String) (position : Option Position)
  deriving DecidableEq

namespace Walk.Error

def ofEntity (e : Entity) : Walk.Error :=
  .unhandledEntity e.kind e.name

def ofNode (n : Node) : Walk.Error :=
  .unhandledNode n.kind n.position

def malformed (n : Node) (expected : Arity) : Walk.Error :=
  .malformedNode n.kind expected n.childCount n.position

/-- The position is that of the assignment, or else of its target. -/
def unsupported (target assign : Node) : Walk.Error :=
  .unsupportedAssignment target.kind assign.print (assign.position <|> target.position)

def kindName : Walk.Error → String
  | .unhandledEntity kind _ => kind.name
  | .unhandledNode kind _ => kind.name
  | .malformedNode kind _ _ _ => kind.name
  | .unsupportedAssignment target _ _ => target.name

def position? : Walk.Error → Option Position
  | .unhandledEntity _ _ => none
  | .unhandledNode _ p => p
  | .malformedNode _ _ _ p => p
  | .unsupportedAssignment _ _ p => p

def place : Option Position → String
  | some p => " at " ++ p.display
  | none => ""

def message : Walk.Error → String
  | .unhandledEntity kind name => "cannot handle entity '" ++ name ++ "' of kind " ++ kind.name
  | .unhandledNode kind p => s!"cannot handle node of kind {kind.name}{place p}"
  | .malformedNode kind expected found p =>
    s!"malformed {kind.name} node{place p}: expected {expected.display} children, found {found}"
  | .unsupportedAssignment target rendered p =>
    s!"cannot handle assignment to {target.name}{place p}: {rendered}"

end Walk.Error

end SyntaxWalk
