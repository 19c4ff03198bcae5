import SyntaxWalk.Context
import SyntaxWalk.Visitor.Basic
import SyntaxWalk.Visitor.Rule

/-!
# Tracers

Two visitors that write a line for each hook and answer by rules. The detailed tracer has scope
contexts, derives them as it is told to, and writes the hooks of every kind under their own names;
the general hooks leave no line. The coarse tracer has plain entities as contexts, which never
change, and writes only the general hooks.
-/

namespace SyntaxWalk.Tracer

structure Memory where
  serials : Supply := {}
  lines : Array String := #[]
  rules : List (Rule × Nat) := []

/-- How a context is derived. -/
inductive Renewal where
  /-- A new context with the entity on top that is entered; inside a body the top stays. -/
  | fresh
  /-- A new context with the same entity on top. -/
  | derived
  /-- The same context. -/
  | kept
  deriving DecidableEq

structure Config where
  file : Renewal := .fresh
  type : Renewal := .fresh
  code : Renewal := .fresh
  localScope : Renewal := .derived
  unwind : Renewal := .derived
  rules : List Rule := []
  /-- The names that nodes have as places of rules. -/
  labels : List (NodeId × String) := []

def Config.start (config : Config) : List (Rule × Nat) :=
  config.rules.map fun r => (r, 0)

def write (line : String) : StateM Memory Unit :=
  modify fun m => { m with lines := m.lines.push line }

instance : Supplied Memory where
  supply := Memory.serials
  withSupply m serials := { m with serials }

/-- The answer of the rules to a call of a hook. -/
def consult (hook : String) (site : Option String) : StateM Memory Answer := fun m =>
  let (applies, rules) := Rule.consult hook site m.rules
  (if applies then .handled else .proceed, { m with rules })

/-- The place of a call, as rules know it. -/
def site (config : Config) {C : Type} : HookCall C → Option String
  | .entity _ e _ _ _ => some e.name
  | .node _ n _ => config.labels.lookup n.id
  | .target _ a _ => config.labels.lookup a.target.id

def parentText (parents : ParentTable) (e : Entity) : String :=
  match ParentTable.parent? parents e with
  | some p => p.id.display
  | none => "-"

def contextText (c : ScopeContext) : String :=
  s!"c{c.serial}"

def derivationText : Derivation → String
  | .file e | .type e | .code e => e.id.display
  | .localScope n | .unwind n => n.id.display

def derive (config : Config) (d : Derivation) (context : ScopeContext) :
    StateM Memory ScopeContext := do
  let (renewal, top) := match d with
    | .file e => (config.file, e)
    | .type e => (config.type, e)
    | .code e => (config.code, e)
    | .localScope _ => (config.localScope, context.top)
    | .unwind _ => (config.unwind, context.top)
  let inner ← match renewal with
    | .fresh => Supplied.draw (ScopeContext.new top)
    | .derived => Supplied.draw context.derive
    | .kept => pure context
  write s!"{d.hookName} {derivationText d} {contextText context} -> {contextText inner}"
  return inner

/-- Writes a line and, if the hook asks, consults the rules. -/
def report (config : Config) {C : Type} (call : HookCall C) (hook line : String) :
    StateM Memory Answer := do
  write line
  if call.asks then consult hook (site config call) else return .proceed

def detailedLine : HookCall ScopeContext → String
  | .entity hook e c inner parents =>
    let derived := match inner with
      | some d => s!" d{d.serial}"
      | none => ""
    s!"{hook.name e.kind} {e.id.display} {e.name} {contextText c}{derived} p={parentText parents e}"
  | .node hook n c =>
    let index := match hook.index? with
      | some i => s!" [{i}]"
      | none => ""
    s!"{hook.name n.kind} {n.id.display} {n.kind.name}{index} {contextText c} " ++
      s!"top={c.top.id.display}"
  | .target hook a c =>
    let order := (a.order?.map CompoundOrder.name).getD "plain"
    s!"{hook.name a} {a.target.id.display} {a.target.kind.name} rhs={a.rhs.id.display} " ++
      s!"assign={a.assign.id.display} {order} {contextText c} top={c.top.id.display}"

def answer (config : Config) (call : HookCall ScopeContext) : StateM Memory Answer :=
  match call with
  | .entity .generalVisit .. | .entity .generalLeave .. | .node .generalVisit ..
  | .node .generalLeave .. => return .proceed
  | _ => report config call call.name (detailedLine call)

/-- The tracer of all hooks. -/
def detailed (config : Config) : Visitor Memory ScopeContext where
  top := ScopeContext.top
  derive := derive config
  answer := answer config

/-- The general hook that stands for the hook of a kind. -/
def generalCall {C : Type} : HookCall C → HookCall C
  | .entity .visit e c inner parents => .entity .generalVisit e c inner parents
  | .entity .leave e c inner parents => .entity .generalLeave e c inner parents
  | .node .visit n c => .node .generalVisit n c
  | .node .leave n c => .node .generalLeave n c
  | call => call

def coarseAnswer (config : Config) (call : HookCall Entity) : StateM Memory Answer :=
  let call := generalCall call
  match call with
  | .entity _ e top _ parents =>
    report config call call.name
      s!"{call.name} {e.id.display} {e.name} top={top.id.display} p={parentText parents e}"
  | .node (.between _) _ _ | .target .. => return .proceed
  | .node _ n top =>
    report config call call.name
      s!"{call.name} {n.id.display} {n.kind.name} top={top.id.display}"

/-- The tracer of the general hooks. -/
def coarse (config : Config) : Visitor Memory Entity where
  top := id
  derive _ context := return context
  answer := coarseAnswer config

end SyntaxWalk.Tracer
