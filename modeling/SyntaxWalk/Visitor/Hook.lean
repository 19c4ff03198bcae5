import SyntaxWalk.ParentTable

/-!
# Hooks

Everything a walk tells its visitor is a call of a hook: what is about to happen or has happened, to
which entity, node or assignment target, and under which context. A derivation is the request for
the context of something nested. Entities and nodes have a hook for each kind, and general hooks
which stand for all kinds at once and which a walk does not call by itself.
-/

namespace SyntaxWalk

/-- When a compound assignment produces its value, relative to the update. -/
inductive CompoundOrder where
  | pre
  | post
  deriving DecidableEq

def CompoundOrder.name : CompoundOrder → String
  | .pre => "pre"
  | .post => "post"

/-- A target with the right-hand side and the whole assignment that it belongs to. -/
structure Assignment where
  target : Node
  rhs : Node
  assign : Node

/-- The order of a compound assignment, `none` for a plain one. -/
def Assignment.order? (a : Assignment) : Option CompoundOrder :=
  match a.assign.kind with
  | .assign => none
  | .assignPreOp => some .pre
  | _ => some .post

inductive EntityHook where
  | enter
  | visit
  | leave
  | postProcess
  | generalVisit
  | generalLeave
  deriving DecidableEq

/-- Points inside a node, between two of its children. An index is that of the child before it, or
of the key before that. -/
inductive Between where
  | loopHeader
  | ifStmtCondition
  | ifStmtTrueClause
  | ifExprCondition
  | ifExprTrueClause
  | fieldInit (index : Nat)
  | arrayObject
  | initElement (index : Nat)
  | switchValue
  | tryBlock
  deriving DecidableEq

inductive NodeHook where
  | enter
  | visit
  | leave
  | between (point : Between)
  | postProcess
  | generalVisit
  | generalLeave
  deriving DecidableEq

inductive TargetHook where
  | visit
  | leave
  deriving DecidableEq

inductive HookCall (C : Type) where
  /-- `inner` is the context derived for what the entity holds, if its kind has one. -/
  | entity (hook : EntityHook) (e : Entity) (context : C) (inner : Option C)
      (parents : ParentTable)
  | node (hook : NodeHook) (n : Node) (context : C)
  | target (hook : TargetHook) (a : Assignment) (context : C)

/-- What a context is derived for; `unwind` is given the cleanup code of the protected region. -/
inductive Derivation where
  | file (e : Entity)
  | type (e : Entity)
  | code (e : Entity)
  | localScope (n : Node)
  | unwind (cleanup : Node)

def Derivation.hookName : Derivation → String
  | .file _ => "make_file_context"
  | .type _ => "make_type_context"
  | .code _ => "make_code_context"
  | .localScope _ => "make_local_context"
  | .unwind _ => "make_unwind_context"

/-- What the hooks of an entity kind are named after. -/
def EntityKind.hookStem : EntityKind → String
  | .file => "file_entity"
  | .type => "type_entity"
  | .function => "function_entity"
  | .script => "script_entity"
  | .field => "field_entity"
  | .custom _ => "entity"

/-- What the hooks of a node kind are named after; the three assignments share theirs. -/
def NodeKind.hookStem : NodeKind → String
  | .functionExpr => "function_expr"
  | .functionStmt => "function_stmt"
  | .localScope => "local_scope"
  | .blockExpr => "block_expr"
  | .blockStmt => "block_stmt"
  | .loopStmt => "loop_stmt"
  | .getCaughtException => "get_caught_exception"
  | .thisExpr => "this"
  | .superExpr => "super_expr"
  | .call => "call"
  | .var => "var"
  | .constant => "constant"
  | .binaryExpr => "binary_expr"
  | .unaryExpr => "unary_expr"
  | .arrayLength => "array_length"
  | .arrayRef => "array_ref"
  | .declStmt => "decl_stmt"
  | .returnStmt => "return_stmt"
  | .ifGoto => "if_goto"
  | .gotoStmt => "goto"
  | .labelStmt => "label_stmt"
  | .ifStmt => "if_stmt"
  | .ifExpr => "if_expr"
  | .newExpr => "new_expr"
  | .objectLiteral => "object_literal"
  | .arrayLiteral => "array_literal"
  | .objectRef => "object_ref"
  | .assign | .assignPreOp | .assignPostOp => "assign"
  | .switchStmt => "switch"
  | .throwStmt => "throw"
  | .catchClause => "catch"
  | .unwind => "unwind"
  | .tryStmt => "try_stmt"
  | .empty => "empty"
  | .primitive => "primitive"
  | .voidExpr => "void"
  | .cast => "cast"
  | .instanceOf => "instance_of"
  | .assertStmt => "assert_stmt"
  | .eachElementGet => "each_element_get"
  | .eachElementHasNext => "each_element_has_next"
  | .typeLiteralExpr => "type_literal_expr"
  | .custom _ => "node"

def EntityHook.name (kind : EntityKind) : EntityHook → String
  | .enter => "enter_entity"
  | .visit => "visit_" ++ kind.hookStem
  | .leave => "leave_" ++ kind.hookStem
  | .postProcess => "post_process_entity"
  | .generalVisit => "visit_entity"
  | .generalLeave => "leave_entity"

namespace Between

def name : Between → String
  | .loopHeader => "leave_loop_header"
  | .ifStmtCondition => "leave_if_stmt_condition"
  | .ifStmtTrueClause => "leave_if_stmt_true_clause"
  | .ifExprCondition => "leave_if_expr_condition"
  | .ifExprTrueClause => "leave_if_expr_true_clause"
  | .fieldInit _ => "leave_object_literal_field_init"
  | .arrayObject => "leave_array_literal_object"
  | .initElement _ => "leave_array_literal_init_element"
  | .switchValue => "leave_switch_value"
  | .tryBlock => "leave_try_block"

def index? : Between → Option Nat
  | .fieldInit i | .initElement i => some i
  | _ => none

end Between

namespace NodeHook

def name (kind : NodeKind) : NodeHook → String
  | .enter => "enter_node"
  | .visit => "visit_" ++ kind.hookStem
  | .leave => "leave_" ++ kind.hookStem
  | .between b => b.name
  | .postProcess => "post_process_node"
  | .generalVisit => "visit_node"
  | .generalLeave => "leave_node"

def index? : NodeHook → Option Nat
  | .between b => b.index?
  | _ => none

end NodeHook

/-- A compound assignment has hooks of its own. -/
def TargetHook.name (a : Assignment) (hook : TargetHook) : String :=
  (match hook with
    | .visit => "visit_"
    | .leave => "leave_") ++
    a.target.kind.hookStem ++ (if a.order?.isSome then "_assign_op" else "_assign")

namespace HookCall

variable {C : Type}

def context : HookCall C → C
  | .entity _ _ c _ _ => c
  | .node _ _ c => c
  | .target _ _ c => c

def name : HookCall C → String
  | .entity hook e _ _ _ => hook.name e.kind
  | .node hook n _ => hook.name n.kind
  | .target hook a _ => hook.name a

/-- Whether the answer of the visitor to this call decides how the walk goes on. -/
def asks : HookCall C → Bool
  | .entity hook _ _ _ _ => hook == .enter || hook == .visit || hook == .generalVisit
  | .node hook _ _ => hook == .enter || hook == .visit || hook == .generalVisit
  | .target hook _ _ => hook == .visit

end HookCall

end SyntaxWalk
