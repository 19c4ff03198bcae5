import SyntaxWalk.Context
import SyntaxWalk.Node.Printer
import SyntaxWalk.Visitor.Basic

/-!
# The recorder

A visitor that writes down every hook it is called with. Contexts of files, types and code have the
entity on top that is entered, contexts inside a body keep theirs; each has a fresh serial, so that
the events show under which context a hook ran. The hooks of all kinds of nodes are recorded under
the same two names.
-/

namespace SyntaxWalk

namespace Recorder

/-- One call of a hook. -/
structure Event where
  hook : String
  /-- The name of an entity, or a node with its payload. -/
  subject : String
  node : Option NodeId := none
  entityKind : Option EntityKind := none
  parent : Option String := none
  index : Option Nat := none
  order : Option CompoundOrder := none
  /-- The serial of the context that the hook received, or that was derived. -/
  context : Nat
  deriving DecidableEq

def Event.display (e : Event) : String :=
  let index := match e.index with
    | some i => s!" [{i}]"
    | none => ""
  let order := match e.order with
    | some o => s!" ({o.name})"
    | none => ""
  e.hook ++ " " ++ e.subject ++ index ++ order

/-- The event as a record; what it does not have is left out. -/
def Event.toJson (e : Event) : Json :=
  let optional {α : Type} (name : String) (f : α → Json) (o : Option α) : List (String × Json) :=
    (o.map fun a => (name, f a)).toList
  .object <|
    [("hook", .text e.hook), ("subject", .text e.subject)] ++
    optional "node" (fun n : NodeId => .integer n.val) e.node ++
    optional "entity_kind" (fun k : EntityKind => .text k.name) e.entityKind ++
    optional "parent" Json.text e.parent ++
    optional "index" (fun i : Nat => .integer i) e.index ++
    optional "order" (fun o : CompoundOrder => .text o.name) e.order ++
    [("context", .integer e.context)]

structure Config where
  /-- Kinds whose `visit` hook is answered by `handled`. -/
  shortCircuit : List NodeKind := []
  /-- Names of entities that are not entered. -/
  skipped : List String := []
  /-- Whether entering and post-processing of nodes is recorded too. -/
  bookkeeping : Bool := false

structure Memory where
  serials : Supply := {}
  events : Array Event := #[]

def record (e : Event) : StateM Memory Unit :=
  modify fun m => { m with events := m.events.push e }

instance : Supplied Memory where
  supply := Memory.serials
  withSupply m serials := { m with serials }

def recordEntity (hook : EntityHook) (e : Entity) (context : ScopeContext)
    (parents : ParentTable) : StateM Memory Unit :=
  record
    { hook := hook.name e.kind
      subject := e.name
      entityKind := some e.kind
      parent := (ParentTable.parent? parents e).map (·.name)
      context := context.serial }

def recordNode (hook : String) (n : Node) (index : Option Nat) (context : ScopeContext) :
    StateM Memory Unit :=
  record { hook, subject := n.describe, node := some n.id, index, context := context.serial }

def derive (d : Derivation) (context : ScopeContext) : StateM Memory ScopeContext := do
  let (top, subject) := match d with
    | .file e | .type e | .code e => (e, e.name)
    | .localScope n | .unwind n => (context.top, n.describe)
  let inner ← Supplied.draw (ScopeContext.new top)
  record { hook := d.hookName, subject, context := inner.serial }
  return inner

def answerIf (b : Bool) : Answer :=
  if b then .handled else .proceed

def answer (config : Config) : HookCall ScopeContext → StateM Memory Answer
  | .entity hook e context _ parents => do
    let recorded : EntityHook := match hook with
      | .generalVisit => .visit
      | .generalLeave => .leave
      | hook => hook
    recordEntity recorded e context parents
    return answerIf (hook == .enter && config.skipped.contains e.name)
  | .node hook n context => do
    match hook with
    | .enter | .postProcess =>
      if config.bookkeeping then recordNode (hook.name n.kind) n none context
      return .proceed
    | .visit | .generalVisit =>
      recordNode "visit" n none context
      return answerIf (config.shortCircuit.contains n.kind)
    | .leave | .generalLeave =>
      recordNode "leave" n none context
      return .proceed
    | .between point =>
      recordNode point.name n point.index? context
      return .proceed
  | .target hook a context => do
    record
      { hook := hook.name a
        subject := a.target.describe
        node := some a.target.id
        order := a.order?
        context := context.serial }
    return .proceed

def visitor (config : Config) : Visitor Memory ScopeContext where
  top := ScopeContext.top
  derive := derive
  answer := answer config

/-- The recorded events, a line for each. -/
def trace (m : Memory) : List String :=
  m.events.toList.map Event.display

def Memory.toJson (m : Memory) : Json :=
  .array (m.events.toList.map Event.toJson)

end Recorder

end SyntaxWalk
