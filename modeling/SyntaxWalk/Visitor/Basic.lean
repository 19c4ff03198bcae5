import SyntaxWalk.Visitor.Hook

/-!
# Visitors

A visitor keeps a memory, derives contexts and answers the calls of its hooks. With `handled` it
takes over: after an `enter` hook nothing more happens to the construct, after a `visit` hook its
children and its `leave` hook are left out. The answer to any other hook has no effect.
-/

namespace SyntaxWalk

inductive Answer where
  | proceed
  | handled
  deriving DecidableEq

def Answer.name : Answer → String
  | .proceed => "continue"
  | .handled => "handled"

/-- A visitor with memory `σ` whose contexts are of type `C`. -/
structure Visitor (σ C : Type) where
  /-- The entity whose scope table holds the declarations of the code under a context. -/
  top : C → Entity
  derive : Derivation → C → StateM σ C
  answer : HookCall C → StateM σ Answer

end SyntaxWalk
