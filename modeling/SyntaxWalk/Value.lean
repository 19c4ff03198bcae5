import SyntaxWalk.Text.Quoted
import SyntaxWalk.Json.Document

/-!
# Literal payloads

The value that a node may carry: the value of a constant, the name of a variable or the spelling of
an operator. In JSON a value has no tag, so its kind is read off the text; an integer that does not
fit into 64 signed bits becomes a floating point number.
-/

namespace SyntaxWalk

inductive Value where
  | null
  | bool (b : Bool)
  | int (i : Int64)
  | float (x : Binary64)
  | str (s : String)
  deriving DecidableEq

namespace Value

def text? : Value → Option String
  | .str s => some s
  | _ => none

def display : Value → String
  | .null => "null"
  | .bool b => if b then "true" else "false"
  | .int i => toString i.toInt
  | .float x => x.display
  | .str s => Text.Quoted.quote s

/-- Equality of payloads; floating point payloads are compared as numbers. -/
def equal : Value → Value → Bool
  | .float x, .float y => x.equal y
  | v, w => decide (v = w)

def toJson : Value → Json
  | .null => .null
  | .bool b => .bool b
  | .int i => .integer i.toInt
  | .float x => .number (.float x)
  | .str s => .text s

/-- The payload that a document stands for: of null, bool, int, float and text, tried in this order,
the first that the document can be read as. An integer can be read as a float whatever its size, and
as an int, which comes before, if it fits; no other document can be read in two ways, so the choice
is by its type. Arrays and objects cannot be read at all. -/
def ofJson : Json → Except Json.Fault Value
  | .null => .ok .null
  | .bool b => .ok (.bool b)
  | .number (.integer i) =>
    if -0x8000000000000000 ≤ i ∧ i < 0x8000000000000000 then .ok (.int (Int64.ofInt i))
    else .ok (.float (Binary64.nearest i.toNat 1))
  | .number (.float x) => .ok (.float x)
  | .text s => .ok (.str s)
  | .array _ | .object _ => .error .wrongType

def render (v : Value) : String :=
  v.toJson.render

/-- The payload that a whole JSON text stands for. -/
def parse (s : String) : Except Json.Fault Value :=
  match Json.read Json.depthLimit s.toList with
  | .error f => .error f
  | .ok (j, rest) =>
    match ofJson j with
    | .error f => .error f
    | .ok v => (Json.atEnd rest).map fun _ => v

end Value

end SyntaxWalk
