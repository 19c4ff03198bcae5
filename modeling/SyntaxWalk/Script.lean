import SyntaxWalk.Context
import SyntaxWalk.Walk.Extension

/-!
# Scripted handlers

A script is a list of acts for a handler: going on with parts of what it was given, visiting
declarations, calling hooks, failing. Acts run in order under the context of the handler or one made
for them, and the first that fails ends the script. What happens is noted, each note with the number
of events that the visitor has by then.
-/

namespace SyntaxWalk

/-- A memory with notes beside it. -/
structure Noted (σ : Type) where
  memory : σ
  notes : Array String := #[]

namespace Noted

variable {σ C α : Type}

def lift (x : StateM σ α) : StateM (Noted σ) α := fun m =>
  let (a, memory) := x.run m.memory
  (a, { m with memory })

/-- A visitor that leaves the notes alone. -/
def visitor (v : Visitor σ C) : Visitor (Noted σ) C where
  top := v.top
  derive d c := lift (v.derive d c)
  answer c := lift (v.answer c)

end Noted

/-- A visitor with what scripts need of it. -/
structure Stage (σ C : Type) where
  visitor : Visitor σ C
  /-- A new context with an entity on top. -/
  enter : Entity → StateM σ C
  /-- A new context with the same entity on top. -/
  renew : C → StateM σ C
  eventCount : σ → Nat
  /-- The memory of a visitor that starts again. -/
  restart : σ → σ

namespace Script

inductive ContextChoice where
  | same
  | renewed
  | entered
  deriving DecidableEq

/-- The node of an assignment that an act is about. -/
inductive Part where
  | target
  | rhs
  | assign
  deriving DecidableEq

inductive Fate where
  | malformed (expected : Arity)
  | unsupported
  | unhandled
  deriving DecidableEq

inductive Act where
  | visit
  | child (i : Nat)
  | children (start : Nat)
  /-- The entities under one key, or all, as nested in the holder. -/
  | scoped (key : Option ScopeKey)
  /-- All entities of the holder, without a parent. -/
  | entities
  | dispatch (target rhs : Nat)
  | note
  | hooks
  | fail (fate : Fate)
  deriving DecidableEq

structure Line where
  act : Act
  context : ContextChoice := .same
  part : Part := .target
  deriving DecidableEq

/-- What a script answers at its end; `last` is the answer of its last dispatch. -/
inductive Result where
  | always (a : Answer)
  | last
  deriving DecidableEq

/-- What a handler was called for. -/
inductive Subject where
  | entity (e : Entity)
  | node (n : Node)
  | target (a : Assignment)

/-- The node that acts are about; an entity may have no body. -/
def Subject.node? (part : Part) : Subject → Option Node
  | .entity e => e.body
  | .node n => some n
  | .target a =>
    match part with
    | .target => some a.target
    | .rhs => some a.rhs
    | .assign => some a.assign

end Script

structure Script where
  lines : List Script.Line := []
  result : Script.Result := .always .handled
  deriving DecidableEq

namespace Script

variable {σ C : Type}

abbrev Run (σ C α : Type) := Procedure (Noted σ) C α

def note (stage : Stage σ C) (text : String) : Run σ C Unit :=
  Procedure.modifyGet fun m =>
    ((), { m with notes := m.notes.push s!"[{stage.eventCount m.memory}] {text}" })

/-- The entity whose declarations acts are about. -/
def holder (stage : Stage σ C) (subject : Subject) (context : C) : Entity :=
  match subject with
  | .entity e => e
  | _ => stage.visitor.top context

def makeContext (stage : Stage σ C) (holder : Entity) (context : C) :
    ContextChoice → Run σ C C
  | .same => pure context
  | .renewed => Procedure.modifyGet (Noted.lift (stage.renew context))
  | .entered => Procedure.modifyGet (Noted.lift (stage.enter holder))

def noteState (stage : Stage σ C) (holder : Entity) : Run σ C Unit := do
  let v ← Procedure.view
  let names := ((ParentTable.ancestors v.parents holder).map (·.name))
  note stage (s!"rescan={v.options.rescanNodeScopes} arity={v.options.checkArity} " ++
    s!"parents={v.parents.size} noext={v.extensions.isEmpty}")
  note stage (s!"ancestors {holder.id.display} [" ++ ",".intercalate names ++ "]")

/-- Calls the two general hooks for the subject. -/
def callHooks (stage : Stage σ C) (subject : Subject) (part : Part) (context : C) :
    Run σ C Unit := do
  let calls : List (HookCall C) ← match subject with
    | .entity e => do
      let parents := (← Procedure.view).parents
      pure [.entity .generalVisit e context none parents,
        .entity .generalLeave e context none parents]
    | _ => pure <| match subject.node? part with
      | some n => [.node .generalVisit n context, .node .generalLeave n context]
      | none => []
  match calls with
  | first :: rest => do
    let answer ← Procedure.ask (.hook first)
    Procedure.askEach (rest.map .hook)
    note stage s!"hooks {answer.name}"
  | [] => pure ()

def error (subject : Subject) (part : Part) (fate : Fate) : Walk.Error :=
  match fate, subject, subject.node? part with
  | .malformed expected, _, some n => .malformed n expected
  | .unsupported, .target a, _ => .unsupported a.target a.assign
  | _, .entity e, none => .ofEntity e
  | _, _, some n => .ofNode n
  | _, .node n, none => .ofNode n
  | _, .target a, none => .ofNode a.target

/-- The assignment that an act dispatches: a child of the node as target, with another child as
right-hand side and the node as assignment. Both children have to be there, but if the subject is an
assignment, it keeps its own right-hand side and node. -/
def assignment? (subject : Subject) (part : Part) (i j : Nat) : Option Assignment := do
  let n ← subject.node? part
  let target ← n.child? i
  let rhs ← n.child? j
  match subject with
  | .target a => return { a with target }
  | _ => return ⟨target, rhs, n⟩

/-- One act; the answer is that of its dispatch, if it made one. -/
def runAct (stage : Stage σ C) (subject : Subject) (holder : Entity) (line : Line) (context : C) :
    Run σ C (Option Answer) := do
  let n? := subject.node? line.part
  match line.act with
  | .visit =>
    Procedure.askEach (n?.toList.map fun n => .node n context)
    return none
  | .child i =>
    Procedure.askEach ((n?.bind (·.child? i)).toList.map fun n => .node n context)
    return none
  | .children start =>
    let ns := n?.toList.flatMap fun n => n.children.drop start
    Procedure.askEach (ns.map fun n => .node n context)
    return none
  | .scoped key =>
    let es := match key with
      | some key => holder.scopedUnder key
      | none => holder.allScoped
    Procedure.askEach (es.map fun e => .nested holder e context)
    return none
  | .entities =>
    Procedure.askEach (holder.allScoped.map fun e => .entity e context)
    return none
  | .dispatch i j =>
    match assignment? subject line.part i j with
    | some a =>
      let answer ← Procedure.ask (.target a context)
      note stage s!"dispatched {answer.name}"
      return some answer
    | none => return none
  | .note =>
    noteState stage holder
    return none
  | .hooks =>
    callHooks stage subject line.part context
    return none
  | .fail fate => .fail (error subject line.part fate)

/-- The lines in order; the answer is that of the last dispatch, starting with `last`. -/
def runLines (stage : Stage σ C) (subject : Subject) (holder : Entity) (context : C) :
    Answer → List Line → Run σ C Answer
  | last, [] => return last
  | last, line :: rest => do
    let inner ← makeContext stage holder context line.context
    let answer? ← runAct stage subject holder line inner
    runLines stage subject holder context (answer?.getD last) rest

def subjectText (stage : Stage σ C) (subject : Subject) (context : C) : Run σ C String := do
  let top := (stage.visitor.top context).id.display
  match subject with
  | .entity e =>
    let parent := match ParentTable.parent? (← Procedure.view).parents e with
      | some p => p.id.display
      | none => "-"
    return s!"entity {e.kind.name} {e.id.display} p={parent}"
  | .node n => return s!"node {n.kind.name} {n.id.display} top={top}"
  | .target a =>
    return s!"target {a.target.kind.name} {a.target.id.display} rhs={a.rhs.id.display} " ++
      s!"assign={a.assign.id.display} top={top}"

def run (stage : Stage σ C) (s : Script) (subject : Subject) (context : C) :
    Run σ C Answer := do
  note stage (← subjectText stage subject context)
  let last ← runLines stage subject (holder stage subject context) context .proceed s.lines
  match s.result with
  | .always a => return a
  | .last => return last

end Script

/-- Scripts for kinds of a front end, in the order they are registered. -/
structure ScriptedExtensions where
  entities : List (String × Script) := []
  nodes : List (String × Script) := []
  targets : List (String × Script) := []

def ScriptedExtensions.register {σ C : Type} (stage : Stage σ C) (x : ScriptedExtensions) :
    Extensions (Noted σ) C :=
  let x₁ := x.entities.foldl (fun acc p =>
    acc.withEntity p.1 fun e c => p.2.run stage (.entity e) c) {}
  let x₂ := x.nodes.foldl (fun acc p =>
    acc.withNode p.1 fun n c => p.2.run stage (.node n) c) x₁
  x.targets.foldl (fun acc p =>
    acc.withTarget p.1 fun a c => p.2.run stage (.target a) c) x₂

end SyntaxWalk
