import SyntaxWalk.Json.Record

/-!
# Source positions

A range of lines and columns, with the address of the file if it is known. Positions are ordered by
their four numbers and then by the address, with no address first; texts are ordered by their code
points.
-/

namespace SyntaxWalk

structure Position where
  firstLine : UInt32
  firstCol : UInt32
  lastLine : UInt32
  lastCol : UInt32
  url : Option String := none
  deriving DecidableEq

namespace Position

def compareUrl : Option String → Option String → Ordering
  | none, none => .eq
  | none, some _ => .lt
  | some _, none => .gt
  | some a, some b => compare a b

def cmp (p q : Position) : Ordering :=
  (compare p.firstLine q.firstLine).then <|
  (compare p.firstCol q.firstCol).then <|
  (compare p.lastLine q.lastLine).then <|
  (compare p.lastCol q.lastCol).then <|
  compareUrl p.url q.url

/-- Sorts by position; what has equal positions keeps its order. -/
def sortOn {α : Type} (position : α → Position) (xs : List α) : List α :=
  xs.mergeSort fun a b => (cmp (position a) (position b)).isLE

def display (p : Position) : String :=
  s!"[{p.firstLine}:{p.firstCol}] -> [{p.lastLine}:{p.lastCol}]"

/-- The record in JSON; without an address it has no such member. -/
def toJson (p : Position) : Json :=
  let number (n : UInt32) : Json := .integer n.toNat
  .object <|
    [("first_line", number p.firstLine), ("first_col", number p.firstCol),
      ("last_line", number p.lastLine), ("last_col", number p.lastCol)] ++
    (p.url.map fun u => ("url", Json.text u)).toList

def render (p : Position) : String :=
  p.toJson.render

/-- A position of which some fields are read. -/
structure Draft where
  firstLine : Option UInt32 := none
  firstCol : Option UInt32 := none
  lastLine : Option UInt32 := none
  lastCol : Option UInt32 := none
  url : Option (Option String) := none

open Json in
/-- How a position is read: all numbers are required, the address may be missing in an object. -/
def record : Record Draft Position where
  fields :=
    [⟨"first_line", fun d => d.firstLine.isSome, fun d cs =>
        (readUInt32 cs).map fun p => ({ d with firstLine := some p.1 }, p.2)⟩,
      ⟨"first_col", fun d => d.firstCol.isSome, fun d cs =>
        (readUInt32 cs).map fun p => ({ d with firstCol := some p.1 }, p.2)⟩,
      ⟨"last_line", fun d => d.lastLine.isSome, fun d cs =>
        (readUInt32 cs).map fun p => ({ d with lastLine := some p.1 }, p.2)⟩,
      ⟨"last_col", fun d => d.lastCol.isSome, fun d cs =>
        (readUInt32 cs).map fun p => ({ d with lastCol := some p.1 }, p.2)⟩,
      ⟨"url", fun d => d.url.isSome, fun d cs =>
        (readText? cs).map fun p => ({ d with url := some p.1 }, p.2)⟩]
  draft := {}
  mayLack := false
  finish d :=
    match d.firstLine, d.firstCol, d.lastLine, d.lastCol with
    | some fl, some fc, some ll, some lc => .ok ⟨fl, fc, ll, lc, d.url.getD none⟩
    | none, _, _, _ => .error (.missingField "first_line")
    | _, none, _, _ => .error (.missingField "first_col")
    | _, _, none, _ => .error (.missingField "last_line")
    | _, _, _, none => .error (.missingField "last_col")

def parse (s : String) : Except Json.Fault Position :=
  record.ofText s

end Position

end SyntaxWalk
