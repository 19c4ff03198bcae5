import SyntaxWalk.Context
import SyntaxWalk.Visitor.Basic

/-!
# The collector

A visitor that keeps the entities in the order in which they are entered, each with the parent that
was recorded for it. Files, types and code have themselves on top of their contexts; inside a body
the context stays as it is.
-/

namespace SyntaxWalk

structure Collected where
  entity : Entity
  /-- The parent when the entity was entered, none for the root. -/
  parent : Option Entity

namespace Collector

structure Memory where
  serials : Supply := {}
  collected : Array Collected := #[]

def entities (m : Memory) : List Entity :=
  m.collected.toList.map (·.entity)

def names (m : Memory) : List String :=
  (entities m).map (·.name)

def parentNames (m : Memory) : List (String × Option String) :=
  m.collected.toList.map fun c => (c.entity.name, c.parent.map (·.name))

instance : Supplied Memory where
  supply := Memory.serials
  withSupply m serials := { m with serials }

def derive (d : Derivation) (context : ScopeContext) : StateM Memory ScopeContext :=
  match d with
  | .file e | .type e | .code e => Supplied.draw (ScopeContext.new e)
  | .localScope _ | .unwind _ => return context

def answer : HookCall ScopeContext → StateM Memory Answer
  | .entity .enter e _ _ parents => do
    modify fun m =>
      { m with collected := m.collected.push ⟨e, ParentTable.parent? parents e⟩ }
    return .proceed
  | _ => return .proceed

def visitor : Visitor Memory ScopeContext where
  top := ScopeContext.top
  derive := derive
  answer := answer

end Collector

end SyntaxWalk
