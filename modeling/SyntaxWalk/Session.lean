import SyntaxWalk.Script
import SyntaxWalk.Visitor.Collector
import SyntaxWalk.Visitor.Recorder
import SyntaxWalk.Visitor.Tracer
import SyntaxWalk.Walk.Basic

/-!
# Sessions

A session keeps one walker for a sequence of commands: walks, visits of parts of a tree, changes of
the options and the extensions, and questions about the parents recorded so far. A command that
fails leaves the state it has reached to the next one.
-/

namespace SyntaxWalk

namespace Stage

def recorder (config : Recorder.Config) : Stage Recorder.Memory ScopeContext where
  visitor := Recorder.visitor config
  enter e := Supplied.draw (ScopeContext.new e)
  renew c := Supplied.draw c.derive
  eventCount m := m.events.size
  restart m := { serials := m.serials }

def collector : Stage Collector.Memory ScopeContext where
  visitor := Collector.visitor
  enter e := Supplied.draw (ScopeContext.new e)
  renew c := Supplied.draw c.derive
  eventCount m := m.collected.size
  restart m := { serials := m.serials }

def detailedTracer (config : Tracer.Config) : Stage Tracer.Memory ScopeContext where
  visitor := Tracer.detailed config
  enter e := Supplied.draw (ScopeContext.new e)
  renew c := Supplied.draw c.derive
  eventCount m := m.lines.size
  restart m := { serials := m.serials, rules := config.start }

def coarseTracer (config : Tracer.Config) : Stage Tracer.Memory Entity where
  visitor := Tracer.coarse config
  enter e := return e
  renew c := return c
  eventCount m := m.lines.size
  restart m := { serials := m.serials, rules := config.start }

end Stage

/-- What a session can be told to do. Operations of the walk name the entity on top of the context
they start with. -/
inductive Command where
  | walk (root top : Entity)
  | visitEntity (e top : Entity)
  | visitNested (parent : Entity) (es : List Entity) (top : Entity)
  | visit (n : Node) (top : Entity)
  | visitChildren (n : Node) (start : Nat) (top : Entity)
  | dispatch (a : Assignment) (top : Entity)
  | setOptions (o : Options)
  | setExtensions (x : ScriptedExtensions)
  | restart
  | parentOf (e : Entity)
  | ancestors (e : Entity)

inductive Outcome where
  | done
  /-- A walk that succeeded gives its parent table. -/
  | walked (parents : ParentTable)
  | answered (a : Answer)
  | options (o : Options)
  | extensions (names : ExtensionNames)
  | parent (p : Option Entity)
  | ancestors (es : List Entity)
  | stopped (s : Stop)

structure Session (σ C : Type) where
  stage : Stage σ C
  extensions : ScriptedExtensions := {}
  options : Options := {}
  /-- The depth to which the recursion of a walk may go. -/
  depth : Nat
  state : WalkState (Noted σ)

namespace Session

variable {σ C : Type}

def walker (s : Session σ C) : Walker (Noted σ) C where
  visitor := Noted.visitor s.stage.visitor
  extensions := s.extensions.register s.stage
  options := s.options

/-- Runs an operation under a fresh context. -/
def runFrom (s : Session σ C) (top : Entity) (x : C → Walk (Noted σ) Outcome) :
    Outcome × Session σ C :=
  let (context, memory) := (Noted.lift (s.stage.enter top)).run s.state.memory
  match x context { s.state with memory } with
  | .ok outcome state => (outcome, { s with state })
  | .error stop state => (.stopped stop, { s with state })

def perform (s : Session σ C) : Command → Outcome × Session σ C
  | .walk root top => s.runFrom top fun c => return .walked (← s.walker.walk s.depth root c)
  | .visitEntity e top => s.runFrom top fun c => do
    s.walker.visitEntity s.depth e c
    return .done
  | .visitNested parent es top => s.runFrom top fun c => do
    s.walker.visitNested s.depth parent es c
    return .done
  | .visit n top => s.runFrom top fun c => do
    s.walker.visit s.depth n c
    return .done
  | .visitChildren n start top => s.runFrom top fun c => do
    s.walker.visitChildren s.depth n start c
    return .done
  | .dispatch a top => s.runFrom top fun c => return .answered (← s.walker.dispatch s.depth a c)
  | .setOptions options => (.options options, { s with options })
  | .setExtensions extensions =>
    (.extensions (extensions.register s.stage).names, { s with extensions })
  | .restart =>
    let memory := { s.state.memory with memory := s.stage.restart s.state.memory.memory }
    (.done, { s with state := { s.state with memory } })
  | .parentOf e => (.parent (ParentTable.parent? s.state.parents e), s)
  | .ancestors e => (.ancestors (ParentTable.ancestors s.state.parents e), s)

end Session

end SyntaxWalk
