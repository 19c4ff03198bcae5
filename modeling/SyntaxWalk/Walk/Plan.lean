import SyntaxWalk.Visitor.Hook

/-!
# Plans of nodes

How a walk takes a node apart depends on its kind and on the number of its children alone. A plan
lists the steps between the `visit` and the `leave` hook of the node: visits of children, hooks
between them, and the derivation of a context for a child.
-/

namespace SyntaxWalk

inductive Step where
  | visit (child : Nat)
  /-- The child is visited under a context derived for the node. -/
  | visitLocal (child : Nat)
  /-- The child is visited under a context derived for its cleanup code. -/
  | visitProtected (child cleanup : Nat)
  | between (point : Between)
  /-- The right-hand side is visited, then the target is taken apart by its shape. -/
  | assign (target rhs : Nat)
  deriving DecidableEq

namespace NodeKind

def visits (indices : List Nat) : List Step :=
  indices.map .visit

/-- The keys of an object literal with `count` children. -/
def fieldKeys (count : Nat) : List Nat :=
  List.range' 1 (count / 2) 2

/-- The plan of a built-in kind, `none` if the kind has no plan for this number of children. Kinds
of a front end have none. -/
def plan? (kind : NodeKind) (count : Nat) : Option (List Step) :=
  match kind with
  | .functionExpr | .functionStmt | .getCaughtException | .thisExpr | .superExpr | .var
  | .constant | .gotoStmt | .empty | .primitive | .voidExpr => some []
  | .blockExpr | .blockStmt => some (visits (List.range count))
  | .localScope => some [.visitLocal 0]
  | .loopStmt => some [.visit 0, .between .loopHeader, .visit 1]
  | .call | .arrayRef => some (.visit 0 :: visits (List.range' 2 (count - 2)))
  | .binaryExpr => some [.visit 1, .visit 2]
  | .unaryExpr | .cast | .instanceOf => some [.visit 1]
  | .arrayLength | .objectRef | .throwStmt | .assertStmt | .eachElementGet
  | .eachElementHasNext | .typeLiteralExpr => some [.visit 0]
  | .declStmt => some (if count = 4 then [.visit 3] else [])
  | .returnStmt => some (if 0 < count then [.visit 0] else [])
  | .ifGoto =>
    if count = 1 then some [.visit 0]
    else if count = 3 then some [.visit 1, .visit 2]
    else none
  | .labelStmt => some (.visit 0 :: if count = 2 then [.visit 1] else [])
  | .ifStmt =>
    some ([.visit 0, .between .ifStmtCondition, .visit 1, .between .ifStmtTrueClause] ++
      if 2 < count then [.visit 2] else [])
  | .ifExpr =>
    some ([.visit 0, .between .ifExprCondition, .visit 1, .between .ifExprTrueClause] ++
      if 2 < count then [.visit 2] else [])
  | .newExpr | .catchClause => some (visits (List.range' 1 (count - 1)))
  | .objectLiteral =>
    some (.visit 0 :: (fieldKeys count).flatMap fun key =>
      [.visit key, .visit (key + 1), .between (.fieldInit key)])
  | .arrayLiteral =>
    some ([.visit 0, .between .arrayObject] ++ (List.range' 1 (count - 1)).flatMap fun i =>
      [.visit i, .between (.initElement i)])
  | .assign | .assignPreOp | .assignPostOp => some [.assign 0 1]
  | .switchStmt => some [.visit 0, .between .switchValue, .visit 1]
  | .unwind => some [.visitProtected 0 1, .visit 1]
  | .tryStmt => some [.visit 0, .between .tryBlock, .visit 1]
  | .custom _ => none

end NodeKind

end SyntaxWalk
