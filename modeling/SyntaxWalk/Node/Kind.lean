import SyntaxWalk.Arity

/-!
# Kinds of nodes

The catalogue of built-in kinds, each with its name, the number of children it may have and the
children that a walk visits as ordinary nodes. A front end may add kinds of its own, which are known
by their name alone.
-/

namespace SyntaxWalk

inductive NodeKind where
  | functionExpr
  | functionStmt
  | localScope
  | blockExpr
  | blockStmt
  | loopStmt
  | getCaughtException
  | thisExpr
  | superExpr
  | call
  | var
  | constant
  | binaryExpr
  | unaryExpr
  | arrayLength
  | arrayRef
  | declStmt
  | returnStmt
  | ifGoto
  | gotoStmt
  | labelStmt
  | ifStmt
  | ifExpr
  | newExpr
  | objectLiteral
  | arrayLiteral
  | objectRef
  | assign
  | assignPreOp
  | assignPostOp
  | switchStmt
  | throwStmt
  | catchClause
  | unwind
  | tryStmt
  | empty
  | primitive
  | voidExpr
  | cast
  | instanceOf
  | assertStmt
  | eachElementGet
  | eachElementHasNext
  | typeLiteralExpr
  | custom (name : String)
  deriving DecidableEq

namespace NodeKind

def name : NodeKind → String
  | .functionExpr => "FunctionExpr"
  | .functionStmt => "FunctionStmt"
  | .localScope => "LocalScope"
  | .blockExpr => "BlockExpr"
  | .blockStmt => "BlockStmt"
  | .loopStmt => "Loop"
  | .getCaughtException => "GetCaughtException"
  | .thisExpr => "This"
  | .superExpr => "Super"
  | .call => "Call"
  | .var => "Var"
  | .constant => "Constant"
  | .binaryExpr => "BinaryExpr"
  | .unaryExpr => "UnaryExpr"
  | .arrayLength => "ArrayLength"
  | .arrayRef => "ArrayRef"
  | .declStmt => "DeclStmt"
  | .returnStmt => "Return"
  | .ifGoto => "IfGoto"
  | .gotoStmt => "Goto"
  | .labelStmt => "LabelStmt"
  | .ifStmt => "IfStmt"
  | .ifExpr => "IfExpr"
  | .newExpr => "New"
  | .objectLiteral => "ObjectLiteral"
  | .arrayLiteral => "ArrayLiteral"
  | .objectRef => "ObjectRef"
  | .assign => "Assign"
  | .assignPreOp => "AssignPreOp"
  | .assignPostOp => "AssignPostOp"
  | .switchStmt => "Switch"
  | .throwStmt => "Throw"
  | .catchClause => "Catch"
  | .unwind => "Unwind"
  | .tryStmt => "Try"
  | .empty => "Empty"
  | .primitive => "Primitive"
  | .voidExpr => "Void"
  | .cast => "Cast"
  | .instanceOf => "InstanceOf"
  | .assertStmt => "Assert"
  | .eachElementGet => "EachElementGet"
  | .eachElementHasNext => "EachElementHasNext"
  | .typeLiteralExpr => "TypeLiteralExpr"
  | .custom name => name

/-- The built-in kinds. -/
def builtIn : List NodeKind :=
  [.functionExpr, .functionStmt, .localScope, .blockExpr, .blockStmt, .loopStmt,
    .getCaughtException, .thisExpr, .superExpr, .call, .var, .constant, .binaryExpr, .unaryExpr,
    .arrayLength, .arrayRef, .declStmt, .returnStmt, .ifGoto, .gotoStmt, .labelStmt, .ifStmt,
    .ifExpr, .newExpr, .objectLiteral, .arrayLiteral, .objectRef, .assign, .assignPreOp,
    .assignPostOp, .switchStmt, .throwStmt, .catchClause, .unwind, .tryStmt, .empty, .primitive,
    .voidExpr, .cast, .instanceOf, .assertStmt, .eachElementGet, .eachElementHasNext,
    .typeLiteralExpr]

/-- The built-in kind of a name. -/
def ofName? (name : String) : Option NodeKind :=
  builtIn.find? fun k => k.name == name

def isAssignment : NodeKind → Bool
  | .assign | .assignPreOp | .assignPostOp => true
  | _ => false

/-- The number of children of a kind; nothing is known of the kinds of a front end. -/
def arity : NodeKind → Option Arity
  | .functionExpr | .functionStmt | .blockExpr | .blockStmt | .getCaughtException | .thisExpr
  | .superExpr | .var | .constant | .gotoStmt | .empty | .primitive | .voidExpr => some .any
  | .localScope | .arrayLength | .throwStmt | .typeLiteralExpr => some (.exactly 1)
  | .loopStmt | .unaryExpr | .objectRef | .assign | .unwind | .tryStmt | .cast | .instanceOf =>
    some (.exactly 2)
  | .binaryExpr | .assignPreOp | .assignPostOp => some (.exactly 3)
  | .call | .arrayRef | .switchStmt => some (.atLeast 2)
  | .newExpr | .arrayLiteral | .catchClause | .eachElementGet | .eachElementHasNext =>
    some (.atLeast 1)
  | .declStmt => some (.between 3 4)
  | .returnStmt => some (.between 0 1)
  | .labelStmt | .assertStmt => some (.between 1 2)
  | .ifStmt | .ifExpr => some (.between 2 3)
  | .ifGoto => some (.either 1 3)
  | .objectLiteral => some .pairs
  | .custom _ => none

/-- The indices from `start` up to `stop` that a node with `count` children has. -/
def span (start stop count : Nat) : List Nat :=
  List.range' start (min stop count - start)

/-- The children of a node with `count` children that a walk visits as ordinary nodes, in order. Of
an assignment this is the right-hand side alone: its target is taken apart by shape. -/
def traversedChildren (kind : NodeKind) (count : Nat) : List Nat :=
  match kind with
  | .blockExpr | .blockStmt | .objectLiteral | .arrayLiteral => span 0 count count
  | .localScope | .arrayLength | .objectRef | .throwStmt | .returnStmt | .assertStmt
  | .eachElementGet | .eachElementHasNext | .typeLiteralExpr => span 0 1 count
  | .loopStmt | .unwind | .tryStmt | .switchStmt | .labelStmt => span 0 2 count
  | .ifStmt | .ifExpr => span 0 3 count
  | .call | .arrayRef => span 0 1 count ++ span 2 count count
  | .binaryExpr => span 1 3 count
  | .unaryExpr | .cast | .instanceOf | .assign | .assignPreOp | .assignPostOp => span 1 2 count
  | .newExpr | .catchClause => span 1 count count
  | .declStmt => span 3 4 count
  | .ifGoto => if count = 1 then [0] else if count = 3 then [1, 2] else []
  | .functionExpr | .functionStmt | .getCaughtException | .thisExpr | .superExpr | .var
  | .constant | .gotoStmt | .empty | .primitive | .voidExpr | .custom _ => []

end NodeKind

end SyntaxWalk
