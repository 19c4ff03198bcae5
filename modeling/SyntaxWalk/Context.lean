import SyntaxWalk.Entity.Basic

/-!
# Contexts

A walk carries a context and asks one thing of it: the entity on top, whose scope table holds the
declarations of the code that is being walked. A scope context adds a serial number, so that two of
them are the same only if one is a copy of the other.
-/

namespace SyntaxWalk

structure ScopeContext where
  top : Entity
  serial : Nat

namespace ScopeContext

/-- Sameness of contexts. -/
instance : BEq ScopeContext where
  beq c d := c.top == d.top && c.serial == d.serial

/-- A fresh context with `top` on top. -/
def new (top : Entity) : StateM Supply ScopeContext := do
  return { top, serial := ← Supply.take }

/-- A fresh context with the same entity on top. -/
def derive (c : ScopeContext) : StateM Supply ScopeContext :=
  new c.top

end ScopeContext

end SyntaxWalk
