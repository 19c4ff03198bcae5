import SyntaxWalk.Entity.Size
import SyntaxWalk.Visitor.Collector
import SyntaxWalk.Walk.Basic

/-!
# Whole walks

A walk of a tree with one visitor, default options and no extensions. The collector puts every
entity with nested code on top of its own context, so no construct comes up inside itself and the
size of the tree is depth enough.
-/

namespace SyntaxWalk

/-- Walks `root` from a memory; the end state is kept when the walk stops. -/
def Visitor.walk {σ C : Type} (v : Visitor σ C) (depth : Nat) (root : Entity) (context : C)
    (memory : σ) : EStateM.Result Stop (WalkState σ) ParentTable :=
  ({ visitor := v } : Walker σ C).walk depth root context { memory }

/-- The entities of a tree in the order of a walk, from a fresh context. -/
def Collector.collect (root : Entity) : Except Stop Collector.Memory :=
  let (context, serials) := (ScopeContext.new root).run {}
  match Collector.visitor.walk root.size root context { serials } with
  | .ok _ s => .ok s.memory
  | .error stop _ => .error stop

end SyntaxWalk
