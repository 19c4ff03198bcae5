/-!
# How many children a node may have
-/

namespace SyntaxWalk

inductive Arity where
  | any
  | exactly (n : Nat)
  | atLeast (n : Nat)
  | between (lo hi : Nat)
  | either (a b : Nat)
  /-- One child, then pairs of a key and a value. -/
  | pairs
  deriving DecidableEq

namespace Arity

def accepts : Arity → Nat → Bool
  | .any, _ => true
  | .exactly n, count => count == n
  | .atLeast n, count => n ≤ count
  | .between lo hi, count => lo ≤ count && count ≤ hi
  | .either a b, count => count == a || count == b
  | .pairs, count => count % 2 == 1

def display : Arity → String
  | .any => "any number of"
  | .exactly n => s!"exactly {n}"
  | .atLeast n => s!"at least {n}"
  | .between lo hi => s!"{lo} to {hi}"
  | .either a b => s!"{a} or {b}"
  | .pairs => "1 plus key/value pairs of"

end Arity

end SyntaxWalk
