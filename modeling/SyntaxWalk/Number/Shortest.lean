import SyntaxWalk.Number.Binary64
import SyntaxWalk.Number.Decimal

/-!
# The shortest decimal that reads back

Every binary number owns the interval of reals that round to it; the ends belong to it when its
significand is even. `shortest` looks on the grids of one, two, … seventeen digits for a multiple in
that interval, takes the first grid that has one, and of two neighbours the nearer. `display` and
`json` are the two written forms.
-/

namespace SyntaxWalk

/-- Where a value half way between two decimals goes. -/
inductive Tie where
  | up
  | even
  deriving DecidableEq

namespace Shortest

/-- A positive value with the ends of its interval, as numerators over one denominator. -/
structure Interval where
  value : Nat
  low : Nat
  high : Nat
  den : Nat
  closed : Bool

/-- The interval of `m · 2 ^ q`; below a power of two the gap is half as wide. -/
def interval (m : Nat) (q : Int) : Interval :=
  let scale := Nat.pow 2 (q - 2).toNat
  let lowGap := if m = Nat.pow 2 52 then 1 else 2
  { value := 4 * m * scale
    low := (4 * m - lowGap) * scale
    high := (4 * m + 2) * scale
    den := Nat.pow 2 (2 - q).toNat
    closed := m % 2 == 0 }

/-- The numerator of `n · 10 ^ e` and of `x / den`, over one denominator. -/
def overCommon (x den n : Nat) (e : Int) : Nat × Nat :=
  (n * Nat.pow 10 e.toNat * den, x * Nat.pow 10 (-e).toNat)

def Interval.contains (i : Interval) (n : Nat) (e : Int) : Bool :=
  let (a, low) := overCommon i.low i.den n e
  let (_, high) := overCommon i.high i.den n e
  if i.closed then low ≤ a && a ≤ high else low < a && a < high

/-- The exponent of the first decimal digit of a value within the range of binary64. -/
def leadingExponent (i : Interval) : Int :=
  let reaches (e : Int) : Bool := let (a, x) := overCommon i.value i.den 1 e; a ≤ x
  (((List.range 640).map fun (k : Nat) => (310 : Int) - k).find? reaches).getD (-330)

/-- Of the two multiples of `10 ^ e` around the value, the nearer one in the interval. -/
def neighbour (tie : Tie) (i : Interval) (e : Int) : Option Nat :=
  let step := Nat.pow 10 e.toNat * i.den
  let x := i.value * Nat.pow 10 (-e).toNat
  let below := x / step
  let twice := 2 * (x % step)
  let upward := step < twice || (twice == step && (tie == .up || below % 2 == 1))
  match i.contains below e, i.contains (below + 1) e with
  | true, true => some (if upward then below + 1 else below)
  | true, false => some below
  | false, true => some (below + 1)
  | false, false => none

/-- The shortest decimal for the positive number `m · 2 ^ q`. -/
def shortest (tie : Tie) (m : Nat) (q : Int) : Decimal :=
  let i := interval m q
  let top := leadingExponent i
  let hit (k : Nat) : Option Decimal :=
    let e := top - k
    (neighbour tie i e).map (Decimal.ofScaled · e)
  ((List.range 17).findSome? hit).getD (Decimal.ofScaled (i.value / i.den) 0)

end Shortest

namespace Binary64

def signed (x : Binary64) (s : String) : String :=
  if x.isNegative then "-" ++ s else s

/-- The form for people: never an exponent, no fraction on whole numbers, a half goes up. -/
def display (x : Binary64) : String :=
  match x.magnitude with
  | .notANumber => "NaN"
  | .infinite => x.signed "inf"
  | .finite 0 _ => x.signed "0"
  | .finite m q => x.signed ((Shortest.shortest .up m q).positional "")

/-- The form in JSON: an exponent outside `1e-5 … 1e15`, otherwise always a fraction, a half goes to
the even digit. What JSON has no number for is `null`. -/
def json (x : Binary64) : String :=
  match x.magnitude with
  | .notANumber | .infinite => "null"
  | .finite 0 _ => x.signed "0.0"
  | .finite m q =>
    let d := Shortest.shortest .even m q
    x.signed (if -5 ≤ d.exponent && d.exponent ≤ 15 then d.positional ".0" else d.scientific)

end Binary64

end SyntaxWalk
