/-!
# Decimal digits and their layouts

A decimal is a list of digits and the place of its point: digits `d₁ … dₙ` with point `p` stand for
`0.d₁ … dₙ · 10 ^ p`. `positional` writes it without an exponent, `scientific` with one digit before
the point and an exponent that always has a sign.
-/

namespace SyntaxWalk

structure Decimal where
  digits : List Char
  point : Int
  deriving DecidableEq

namespace Decimal

/-- The decimal `n · 10 ^ e`, without zeros at the end. -/
def ofScaled (n : Nat) (e : Int) : Decimal :=
  let ds := Nat.toDigits 10 n
  ⟨(ds.reverse.dropWhile (· == '0')).reverse, ds.length + e⟩

/-- The exponent of the first digit. -/
def exponent (d : Decimal) : Int :=
  d.point - 1

/-- All digits in their places; `whole` ends a text that has no fraction. -/
def positional (whole : String) (d : Decimal) : String :=
  if d.point ≤ 0 then
    String.ofList ('0' :: '.' :: List.replicate (-d.point).toNat '0' ++ d.digits)
  else if d.digits.length ≤ d.point.toNat then
    String.ofList (d.digits ++ List.replicate (d.point.toNat - d.digits.length) '0') ++ whole
  else
    String.ofList (d.digits.take d.point.toNat ++ '.' :: d.digits.drop d.point.toNat)

def scientific (d : Decimal) : String :=
  let sign := if d.exponent < 0 then "-" else "+"
  let mantissa := match d.digits with
    | [] => "0"
    | [c] => String.ofList [c]
    | c :: cs => String.ofList (c :: '.' :: cs)
  mantissa ++ "e" ++ sign ++ toString d.exponent.natAbs

end Decimal

end SyntaxWalk
