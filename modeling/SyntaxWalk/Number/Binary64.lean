/-!
# Binary floating point numbers of 64 bits

A number is its word: a sign, eleven bits of exponent and 52 of fraction. `magnitude` reads the word
as `m · 2 ^ q`, infinity or no number, and `nearest` goes back from an exact fraction, to the
nearest word, a tie to the even one. Products and quotients are exact fractions rounded once.
-/

namespace SyntaxWalk

structure Binary64 where
  bits : UInt64
  deriving DecidableEq

namespace Binary64

/-- The absolute value that a word stands for; `finite m q` is `m · 2 ^ q`. -/
inductive Magnitude where
  | finite (m : Nat) (q : Int)
  | infinite
  | notANumber
  deriving DecidableEq

def isNegative (x : Binary64) : Bool :=
  Nat.pow 2 63 ≤ x.bits.toNat

def exponentField (x : Binary64) : Nat :=
  x.bits.toNat / Nat.pow 2 52 % Nat.pow 2 11

def fraction (x : Binary64) : Nat :=
  x.bits.toNat % Nat.pow 2 52

def magnitude (x : Binary64) : Magnitude :=
  if x.exponentField = 2047 then
    if x.fraction = 0 then .infinite else .notANumber
  else if x.exponentField = 0 then .finite x.fraction (-1074)
  else .finite (Nat.pow 2 52 + x.fraction) (x.exponentField - 1075)

def zero : Binary64 := ⟨0⟩

def infinity : Binary64 := ⟨0x7ff0000000000000⟩

def neg (x : Binary64) : Binary64 := ⟨x.bits ^^^ 0x8000000000000000⟩

/-- Equality of numbers: the two zeros are equal, and what is not a number differs from itself. -/
def equal (x y : Binary64) : Bool :=
  match x.magnitude, y.magnitude with
  | .notANumber, _ => false
  | _, .notANumber => false
  | .finite 0 _, .finite 0 _ => true
  | _, _ => x.bits == y.bits

/-- The quotient of two naturals rounded to the nearest integer, a tie to the even one. -/
def roundDiv (num den : Nat) : Nat :=
  let q := num / den
  let r := num % den
  if den < 2 * r || (2 * r == den && q % 2 == 1) then q + 1 else q

/-- The exponent of the grid of 53-bit numbers that `num / den` lies on, at least `-1074`. -/
def gridExponent (num den : Nat) : Int :=
  let e : Int := (Nat.log2 num : Int) - (Nat.log2 den : Int) - 53
  let scaled := if 0 ≤ e then num / (den * Nat.pow 2 e.toNat)
    else num * Nat.pow 2 (-e).toNat / den
  max (-1074) (if Nat.pow 2 53 ≤ scaled then e + 1 else e)

/-- The positive word nearest to `num / den`; a value too large rounds to infinity. -/
def nearest (num den : Nat) : Binary64 :=
  if num = 0 then zero
  else
    let e := gridExponent num den
    let m :=
      if 0 ≤ e then roundDiv num (den * Nat.pow 2 e.toNat)
      else roundDiv (num * Nat.pow 2 (-e).toNat) den
    let word := (e + 1074).toNat * Nat.pow 2 52 + m
    if infinity.bits.toNat ≤ word then infinity else ⟨word.toUInt64⟩

/-- A finite magnitude as a fraction; other words give `none`. -/
def toFraction? (x : Binary64) : Option (Nat × Nat) :=
  match x.magnitude with
  | .finite m q => some (if 0 ≤ q then (m * Nat.pow 2 q.toNat, 1) else (m, Nat.pow 2 (-q).toNat))
  | _ => none

def isInfinite (x : Binary64) : Bool :=
  x.magnitude == .infinite

/-- The product of two magnitudes, rounded once; without a finite value the answer is infinity. -/
def mulMagnitude (x y : Binary64) : Binary64 :=
  match x.toFraction?, y.toFraction? with
  | some (a, b), some (c, d) => nearest (a * c) (b * d)
  | _, _ => infinity

/-- The quotient of two magnitudes, rounded once; the divisor is finite and not zero. -/
def divMagnitude (x y : Binary64) : Binary64 :=
  match x.toFraction?, y.toFraction? with
  | some (a, b), some (c, d) => nearest (a * d) (b * c)
  | _, _ => infinity

end Binary64

end SyntaxWalk
