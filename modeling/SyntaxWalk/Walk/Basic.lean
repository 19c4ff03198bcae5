import SyntaxWalk.Walk.Extension
import SyntaxWalk.Walk.Plan

/-!
# Walks

A walker drives a visitor over entities and the nodes of their bodies. Each construct is entered,
visited, left and post-processed; between its visit and its leave hook a node is taken apart by its
plan, and after it the entities that the entity on top scopes to it are visited. Errors end the walk
and keep the state it had.

Entities that are scoped to a node are found through the context, not through the tree, so a walk
need not end: a context that keeps an outer entity on top can bring up an entity inside its own
body. A walk is therefore given the depth to which its recursion may go. One layer of it is a plain
function of the operations below it, which is what a handler gets to call; `Walker.descent` stacks
the layers.
-/

namespace SyntaxWalk

/-- Why a walk stopped. -/
inductive Stop where
  | failed (e : Walk.Error)
  | outOfDepth
  deriving DecidableEq

structure WalkState (σ : Type) where
  memory : σ
  parents : ParentTable := {}

/-- A piece of a walk; the state survives a stop. -/
abbrev Walk (σ α : Type) := EStateM Stop (WalkState σ) α

structure Walker (σ C : Type) where
  visitor : Visitor σ C
  extensions : Extensions σ C := {}
  options : Options := {}

/-- The recursive operations of a walk. -/
structure Descent (σ C : Type) where
  entity : Entity → C → Walk σ Unit
  node : Node → C → Walk σ Unit
  target : Assignment → C → Walk σ Answer

namespace Walk

variable {σ C α : Type}

def fail (e : Walk.Error) : Walk σ α :=
  throw (.failed e)

def setParent (child parent : Entity) : Walk σ Unit :=
  modify fun s => { s with parents := ParentTable.setParent s.parents child parent }

/-- Runs a piece of a walk and reports how it ended; running out of depth is not reported. -/
def attempt (x : Walk σ α) : Walk σ (Except Walk.Error α) := fun s =>
  match x s with
  | .ok a s => .ok (.ok a) s
  | .error (.failed e) s => .ok (.error e) s
  | .error .outOfDepth s => .error .outOfDepth s

/-- Each entity in turn, entered as a child of `parent`. -/
def visitScoped (d : Descent σ C) (parent : Entity) (context : C) : List Entity → Walk σ Unit
  | [] => pure ()
  | e :: es => do
    setParent e parent
    d.entity e context
    visitScoped d parent context es

def visitEach (d : Descent σ C) (context : C) : List Node → Walk σ Unit
  | [] => pure ()
  | n :: ns => do
    d.node n context
    visitEach d context ns

/-- A whole walk: the parent table starts empty, and after a walk that succeeds it is given away. -/
def whole (d : Descent σ C) (root : Entity) (context : C) : Walk σ ParentTable := do
  modify fun s => { s with parents := {} }
  d.entity root context
  modifyGet fun s => (s.parents, { s with parents := {} })

/-- A child that has to be there. The error names the number of children of the kind, or, if that
would allow this node, the number that is needed. -/
def requireChild (n : Node) (i : Nat) : Walk σ Node :=
  match n.child? i with
  | some c => pure c
  | none =>
    match n.kind.arity with
    | some expected =>
      fail (.malformed n (if expected.accepts n.childCount then .atLeast (i + 1) else expected))
    | none => fail (.malformed n (.atLeast (i + 1)))

end Walk

namespace Walker

open Walk

variable {σ C : Type}

def call (w : Walker σ C) (c : HookCall C) : Walk σ Answer := do
  let s ← get
  let (answer, memory) := w.visitor.answer c s.memory
  set { s with memory }
  return answer

def derive (w : Walker σ C) (d : Derivation) (context : C) : Walk σ C := do
  let s ← get
  let (inner, memory) := w.visitor.derive d context s.memory
  set { s with memory }
  return inner

def callEntity (w : Walker σ C) (hook : EntityHook) (e : Entity) (context : C)
    (inner : Option C) : Walk σ Answer := do
  w.call (.entity hook e context inner (← get).parents)

def callNode (w : Walker σ C) (hook : NodeHook) (n : Node) (context : C) : Walk σ Answer :=
  w.call (.node hook n context)

def callTarget (w : Walker σ C) (hook : TargetHook) (a : Assignment) (context : C) :
    Walk σ Answer :=
  w.call (.target hook a context)

/-- Refuses a node with a wrong number of children, if that is to be checked. -/
def checkArity (w : Walker σ C) (n : Node) : Walk σ Unit :=
  match n.kind.arity with
  | some expected =>
    if w.options.checkArity && !expected.accepts n.childCount then fail (.malformed n expected)
    else pure ()
  | none => pure ()

/-- Carries out a request of a handler. -/
def runRequest (w : Walker σ C) (d : Descent σ C) : Request C → Walk σ Answer
  | .node n context => do
    d.node n context
    return .proceed
  | .entity e context => do
    d.entity e context
    return .proceed
  | .nested parent e context => do
    setParent e parent
    d.entity e context
    return .proceed
  | .target a context => d.target a context
  | .hook c => w.call c

def runProcedure (w : Walker σ C) (d : Descent σ C) {α : Type} :
    Procedure σ C α → Walk σ α
  | .done a => pure a
  | .fail e => fail e
  | .request r next => do
    let outcome ← attempt (w.runRequest d r)
    runProcedure w d (next outcome)
  | .walk root context next => do
    let outcome ← attempt (whole d root context)
    runProcedure w d (next outcome)
  | .look next => do
    let s ← get
    runProcedure w d (next ⟨s.memory, s.parents, w.options, w.extensions.names⟩)
  | .store memory next => do
    modify fun s => { s with memory }
    runProcedure w d next

/-! ## Nodes -/

/-- One step of a plan. With `handled` the rest of the plan and the `leave` hook are left out. -/
def runStep (w : Walker σ C) (d : Descent σ C) (n : Node) (context : C) : Step → Walk σ Answer
  | .visit i => do
    d.node (← requireChild n i) context
    return .proceed
  | .visitLocal i => do
    let inner ← w.derive (.localScope n) context
    d.node (← requireChild n i) inner
    return .proceed
  | .visitProtected i j => do
    let body ← requireChild n i
    let cleanup ← requireChild n j
    let inner ← w.derive (.unwind cleanup) context
    d.node body inner
    return .proceed
  | .between point => do
    let _ ← w.callNode (.between point) n context
    return .proceed
  | .assign i j => do
    let target ← requireChild n i
    let rhs ← requireChild n j
    d.node rhs context
    d.target ⟨target, rhs, n⟩ context

def runPlan (w : Walker σ C) (d : Descent σ C) (n : Node) (context : C) :
    List Step → Walk σ Answer
  | [] => return .proceed
  | step :: steps => do
    match ← w.runStep d n context step with
    | .handled => return .handled
    | .proceed => runPlan w d n context steps

/-- A node of a kind of a front end, which its handler must handle. -/
def runCustomNode (w : Walker σ C) (d : Descent σ C) (n : Node) (kind : String) (context : C) :
    Walk σ Answer := do
  match w.extensions.nodes.get? kind with
  | some handler =>
    match ← w.runProcedure d (handler n context) with
    | .handled => return .proceed
    | .proceed => fail (.ofNode n)
  | none => fail (.ofNode n)

/-- A node of a built-in kind; the answer is that of its `visit` hook. -/
def runBuiltIn (w : Walker σ C) (d : Descent σ C) (n : Node) (context : C) : Walk σ Answer :=
  match n.kind.plan? n.childCount with
  | none => fail (.malformed n (n.kind.arity.getD .any))
  | some plan => do
    match ← w.callNode .visit n context with
    | .handled => return .handled
    | .proceed =>
      match ← w.runPlan d n context plan with
      | .handled => return .proceed
      | .proceed =>
        let _ ← w.callNode .leave n context
        return .proceed

def runNode (w : Walker σ C) (d : Descent σ C) (n : Node) (context : C) : Walk σ Answer :=
  match n.kind with
  | .custom kind => w.runCustomNode d n kind context
  | _ => w.runBuiltIn d n context

/-- The entities that the entity on top scopes to a node. They are left out after a node that a hook
handled, unless the options ask for them there too. -/
def visitScopedUnder (w : Walker σ C) (d : Descent σ C) (n : Node) (answer : Answer)
    (context : C) : Walk σ Unit :=
  if answer = .proceed ∨ w.options.rescanNodeScopes then
    let top := w.visitor.top context
    visitScoped d top context (top.scopedUnder (.node n.id))
  else pure ()

def visitNodeIn (w : Walker σ C) (d : Descent σ C) (n : Node) (context : C) : Walk σ Unit := do
  match ← w.callNode .enter n context with
  | .handled => return ()
  | .proceed =>
    w.checkArity n
    let answer ← w.runNode d n context
    w.visitScopedUnder d n answer context
    let _ ← w.callNode .postProcess n context

/-! ## Assignment targets -/

/-- A target of a shape that can be assigned to: `inside` goes on between its two hooks. -/
def runTarget (w : Walker σ C) (a : Assignment) (context : C) (inside : Walk σ Answer) :
    Walk σ Answer := do
  match ← w.callTarget .visit a context with
  | .handled => return .handled
  | .proceed =>
    match ← inside with
    | .handled => return .handled
    | .proceed =>
      let _ ← w.callTarget .leave a context
      return .proceed

/-- A target of any other kind, which the handler of its name must handle. -/
def runCustomTarget (w : Walker σ C) (d : Descent σ C) (a : Assignment) (context : C) :
    Walk σ Answer := do
  match w.extensions.targets.get? a.target.kind.name with
  | some handler =>
    match ← w.runProcedure d (handler a context) with
    | .handled => return .proceed
    | .proceed => fail (.unsupported a.target a.assign)
  | none => fail (.unsupported a.target a.assign)

def dispatchIn (w : Walker σ C) (d : Descent σ C) (a : Assignment) (context : C) :
    Walk σ Answer :=
  match a.target.kind with
  | .arrayRef => do
    w.checkArity a.target
    w.runTarget a context do
      d.node (← requireChild a.target 0) context
      visitEach d context (a.target.children.drop 2)
      return .proceed
  | .objectRef => do
    w.checkArity a.target
    w.runTarget a context do
      d.node (← requireChild a.target 0) context
      return .proceed
  | .blockExpr =>
    w.runTarget a context do
      match a.target.lastChild? with
      | some last => d.target { a with target := last } context
      | none => fail (.malformed a.target (.atLeast 1))
  | .var => w.runTarget a context (return .proceed)
  | _ => w.runCustomTarget d a context

/-! ## Entities -/

/-- A file or type: all it declares is visited under the derived context. -/
def runContainer (w : Walker σ C) (d : Descent σ C) (e : Entity) (context : C)
    (derivation : Derivation) : Walk σ Unit := do
  let inner ← w.derive derivation context
  match ← w.callEntity .visit e context (some inner) with
  | .handled => return ()
  | .proceed =>
    visitScoped d e inner e.allScoped
    let _ ← w.callEntity .leave e context (some inner)

/-- A function or script: its body and then its global declarations. -/
def runCode (w : Walker σ C) (d : Descent σ C) (e : Entity) (context : C) : Walk σ Unit := do
  let inner ← w.derive (.code e) context
  match ← w.callEntity .visit e context (some inner) with
  | .handled => return ()
  | .proceed =>
    visitEach d inner e.body.toList
    visitScoped d e inner (e.scopedUnder .global)
    let _ ← w.callEntity .leave e context (some inner)

def runField (w : Walker σ C) (e : Entity) (context : C) : Walk σ Unit := do
  match ← w.callEntity .visit e context none with
  | .handled => return ()
  | .proceed =>
    let _ ← w.callEntity .leave e context none

/-- An entity of a kind of a front end, which its handler must handle. -/
def runCustomEntity (w : Walker σ C) (d : Descent σ C) (e : Entity) (kind : String)
    (context : C) : Walk σ Unit := do
  match w.extensions.entities.get? kind with
  | some handler =>
    match ← w.runProcedure d (handler e context) with
    | .handled => return ()
    | .proceed => fail (.ofEntity e)
  | none => fail (.ofEntity e)

def runEntity (w : Walker σ C) (d : Descent σ C) (e : Entity) (context : C) : Walk σ Unit :=
  match e.kind with
  | .file => w.runContainer d e context (.file e)
  | .type => w.runContainer d e context (.type e)
  | .function | .script => w.runCode d e context
  | .field => w.runField e context
  | .custom kind => w.runCustomEntity d e kind context

def visitEntityIn (w : Walker σ C) (d : Descent σ C) (e : Entity) (context : C) :
    Walk σ Unit := do
  match ← w.callEntity .enter e context none with
  | .handled => return ()
  | .proceed =>
    w.runEntity d e context
    let _ ← w.callEntity .postProcess e context none

/-! ## The recursion -/

/-- The operations of a walk whose recursion may go `depth` layers down. -/
def descent (w : Walker σ C) : (depth : Nat) → Descent σ C
  | 0 =>
    { entity := fun _ _ => throw .outOfDepth
      node := fun _ _ => throw .outOfDepth
      target := fun _ _ => throw .outOfDepth }
  | depth + 1 =>
    { entity := fun e context => w.visitEntityIn (descent w depth) e context
      node := fun n context => w.visitNodeIn (descent w depth) n context
      target := fun a context => w.dispatchIn (descent w depth) a context }

/-- Visits an entity and everything nested in it. -/
def visitEntity (w : Walker σ C) (depth : Nat) (e : Entity) (context : C) : Walk σ Unit :=
  (w.descent depth).entity e context

/-- Visits a node and everything below it. -/
def visit (w : Walker σ C) (depth : Nat) (n : Node) (context : C) : Walk σ Unit :=
  (w.descent depth).node n context

/-- Takes an assignment target apart by its shape; `handled` if one of its hooks took over. -/
def dispatch (w : Walker σ C) (depth : Nat) (a : Assignment) (context : C) : Walk σ Answer :=
  (w.descent depth).target a context

/-- Visits entities as nested in `parent`. -/
def visitNested (w : Walker σ C) (depth : Nat) (parent : Entity) (es : List Entity)
    (context : C) : Walk σ Unit :=
  visitScoped (w.descent depth) parent context es

/-- Visits the children of a node from `start` on. -/
def visitChildren (w : Walker σ C) (depth : Nat) (n : Node) (start : Nat) (context : C) :
    Walk σ Unit :=
  visitEach (w.descent depth) context (n.children.drop start)

def walk (w : Walker σ C) (depth : Nat) (root : Entity) (context : C) : Walk σ ParentTable :=
  whole (w.descent depth) root context

end Walker

end SyntaxWalk
