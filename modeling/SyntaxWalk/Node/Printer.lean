import SyntaxWalk.Node.Basic

/-!
# Nodes in print

A node is written on one line in parentheses: its kind, its payload if it has one, and its children.
Numbers and positions are left out.
-/

namespace SyntaxWalk.Node

mutual

def print : Node → String
  | ⟨_, kind, children, value, _⟩ =>
    let payload := match value with
      | some v => " " ++ v.display
      | none => ""
    "(" ++ kind.name ++ payload ++ printEach children ++ ")"

/-- Each node after a blank. -/
def printEach : List Node → String
  | [] => ""
  | n :: ns => " " ++ print n ++ printEach ns

end

/-- The kind with the payload, texts without quotes. -/
def describe (n : Node) : String :=
  match n.value with
  | some (.str s) => n.kind.name ++ " " ++ s
  | some v => n.kind.name ++ " " ++ v.display
  | none => n.kind.name

end SyntaxWalk.Node
