import SyntaxWalk.Json.Fault
import SyntaxWalk.Number.Shortest

/-!
# Numbers in JSON

A number without fraction and exponent is an integer as long as it fits into 64 bits, signed or not;
every other one, minus zero included, is a floating point number. Of its digits those are used that
fit into an unsigned word of 64 bits, and the result is scaled by powers of ten up to `1e308`, each
step rounded.
-/

namespace SyntaxWalk.Json

inductive Number where
  | integer (i : Int)
  | float (x : Binary64)
  deriving DecidableEq

namespace Number

def isDigit (c : Char) : Bool :=
  '0' ≤ c && c ≤ '9'

/-- The digits at the front, with what follows them. -/
def digits (cs : List Char) : List Nat × List Char :=
  ((cs.takeWhile isDigit).map fun c => c.toNat - 48, cs.dropWhile isDigit)

/-- Adds digits to `m` as long as the result is below `2 ^ 64`; with the number of digits added. -/
def absorb (m : Nat) : List Nat → Nat × Nat
  | [] => (m, 0)
  | d :: ds =>
    if m * 10 + d < Nat.pow 2 64 then
      let (n, used) := absorb (m * 10 + d) ds
      (n, used + 1)
    else (m, 0)

def powerOfTen (e : Nat) : Binary64 :=
  Binary64.nearest (Nat.pow 10 e) 1

/-- The word for `m · 10 ^ e`, scaled in steps of at most `10 ^ 308`. -/
def scale (m : Nat) (e : Int) : Except Fault Binary64 :=
  let x := Binary64.nearest m 1
  if m = 0 then .ok .zero
  else if 308 < e then .error .numberTooLarge
  else if 0 ≤ e then
    let y := x.mulMagnitude (powerOfTen e.toNat)
    if y.isInfinite then .error .numberTooLarge else .ok y
  else if -308 ≤ e then .ok (x.divMagnitude (powerOfTen (-e).toNat))
  else if -616 ≤ e then
    .ok ((x.divMagnitude (powerOfTen 308)).divMagnitude (powerOfTen (-e - 308).toNat))
  else .ok .zero

def scaled (negative : Bool) (m : Nat) (e : Int) : Except Fault Number :=
  (scale m e).map fun x => .float (if negative then x.neg else x)

/-- The number without fraction and exponent; below `-2 ^ 63` it is no longer an integer. -/
def whole (negative : Bool) (m : Nat) : Number :=
  if negative then
    if m = 0 ∨ Nat.pow 2 63 < m then .float (Binary64.nearest m 1).neg else .integer (-m)
  else .integer m

/-- The exponent after its letter. -/
def readExponent (cs : List Char) : Scan Int :=
  let (negative, cs) := match cs with
    | '+' :: r => (false, r)
    | '-' :: r => (true, r)
    | _ => (false, cs)
  match digits cs with
  | ([], []) => .error .endOfText
  | ([], _ :: _) => .error .badNumber
  | (ds, rest) =>
    let e : Nat := ds.foldl (fun n d => n * 10 + d) 0
    .ok (if negative then -(e : Int) else e, rest)

/-- The number `m · 10 ^ e` with the exponent that may follow it. -/
def withExponent (negative : Bool) (m : Nat) (e : Int) (cs : List Char) : Scan Number :=
  match cs with
  | 'e' :: rest | 'E' :: rest =>
    match readExponent rest with
    | .error f => .error f
    | .ok (x, rest) => (scaled negative m (e + x)).map fun v => (v, rest)
  | _ => (scaled negative m e).map fun v => (v, cs)

/-- The number at the front, whose sign is already read. -/
def read (negative : Bool) (cs : List Char) : Scan Number :=
  match digits cs with
  | ([], []) => .error .endOfText
  | ([], _ :: _) => .error .badNumber
  | (d :: ds, rest) =>
    if d = 0 ∧ ds ≠ [] then .error .badNumber
    else
      let (m, used) := absorb 0 (d :: ds)
      let e : Nat := ds.length + 1 - used
      match rest with
      | '.' :: tail =>
        match digits tail with
        | ([], []) => .error .endOfText
        | ([], _ :: _) => .error .badNumber
        | (fs, after) =>
          let (m, used) := absorb m fs
          withExponent negative m ((e : Int) - used) after
      | 'e' :: _ | 'E' :: _ => withExponent negative m e rest
      | _ => if e = 0 then .ok (whole negative m, rest) else withExponent negative m e rest

/-- Passes over an exponent after its letter. -/
def skipExponent (cs : List Char) : Except Fault (List Char) :=
  let cs := match cs with
    | '+' :: r | '-' :: r => r
    | _ => cs
  match digits cs with
  | ([], _) => .error .badNumber
  | (_, rest) => .ok rest

/-- Passes over a number whose sign is already read; its size does not matter. -/
def skip (cs : List Char) : Except Fault (List Char) :=
  match digits cs with
  | ([], _) => .error .badNumber
  | (d :: ds, rest) =>
    if d = 0 ∧ ds ≠ [] then .error .badNumber
    else
      match rest with
      | '.' :: tail =>
        match digits tail with
        | ([], _) => .error .badNumber
        | (_, 'e' :: r) | (_, 'E' :: r) => skipExponent r
        | (_, r) => .ok r
      | 'e' :: r | 'E' :: r => skipExponent r
      | _ => .ok rest

def render : Number → String
  | .integer i => toString i
  | .float x => x.json

end Number

end SyntaxWalk.Json
