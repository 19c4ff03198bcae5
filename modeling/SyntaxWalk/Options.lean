import SyntaxWalk.Json.Record

/-!
# Options of a walk

Both options are on unless they are turned off. In JSON a missing member, or a missing element at
the end of an array, leaves its option on.
-/

namespace SyntaxWalk

structure Options where
  /-- Entities scoped to a node are visited even when the visitor has handled the node. -/
  rescanNodeScopes : Bool := true
  /-- The number of children is checked against the kind before a node is visited. -/
  checkArity : Bool := true
  deriving DecidableEq

namespace Options

def withRescan (o : Options) (on : Bool) : Options :=
  { o with rescanNodeScopes := on }

def withCheckArity (o : Options) (on : Bool) : Options :=
  { o with checkArity := on }

def toJson (o : Options) : Json :=
  .object [("rescan_node_scopes", .bool o.rescanNodeScopes), ("check_arity", .bool o.checkArity)]

def render (o : Options) : String :=
  o.toJson.render

/-- Options of which some are read. -/
structure Draft where
  rescanNodeScopes : Option Bool := none
  checkArity : Option Bool := none

open Json in
def record : Record Draft Options where
  fields :=
    [⟨"rescan_node_scopes", fun d => d.rescanNodeScopes.isSome, fun d cs =>
        (readBool cs).map fun p => ({ d with rescanNodeScopes := some p.1 }, p.2)⟩,
      ⟨"check_arity", fun d => d.checkArity.isSome, fun d cs =>
        (readBool cs).map fun p => ({ d with checkArity := some p.1 }, p.2)⟩]
  draft := {}
  mayLack := true
  finish d := .ok ⟨d.rescanNodeScopes.getD true, d.checkArity.getD true⟩

def parse (s : String) : Except Json.Fault Options :=
  record.ofText s

end Options

end SyntaxWalk
