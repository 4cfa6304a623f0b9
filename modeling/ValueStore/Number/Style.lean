import ValueStore.Number.Shortest

/-!
# The text of a floating-point number

The shortest decimal, written with a point where it stands while its exponent is
small, and with one digit before the point and an explicit exponent otherwise. At
least one digit follows a point that stands where it is.
-/

namespace ValueStore

namespace Number

structure Style where
  /-- Least exponent of the first digit that is written without an exponent. -/
  plainFrom : Int
  /-- First exponent of the first digit that is too large for that. -/
  plainBelow : Int
  /-- What stands before an exponent that is not negative. -/
  plusSign : String
  tie : Tie
  nan : String
  infinity : String
  negativeInfinity : String

namespace Style

def zeros (n : Nat) : String :=
  String.ofList (List.replicate n '0')

/-- A decimal with its point in place; `leading` is the exponent of its first digit. -/
def plain (digits : List Char) (leading : Int) : String :=
  if leading < 0 then
    "0." ++ zeros ((-leading).toNat - 1) ++ String.ofList digits
  else
    let whole := leading.toNat + 1
    if digits.length ≤ whole then
      String.ofList digits ++ zeros (whole - digits.length) ++ ".0"
    else
      String.ofList (digits.take whole) ++ "." ++ String.ofList (digits.drop whole)

/-- A decimal with one digit before the point; `leading` is the exponent of that digit. -/
def scientific (style : Style) (digits : List Char) (leading : Int) : String :=
  let mantissa :=
    if digits.length ≤ 1 then
      String.ofList digits
    else
      String.ofList (digits.take 1) ++ "." ++ String.ofList (digits.drop 1)
  let sign := if leading < 0 then "-" else style.plusSign
  mantissa ++ "e" ++ sign ++ toString leading.natAbs

def decimal (style : Style) (d : Decimal) : String :=
  let digits := Nat.toDigits 10 d.digits
  let leading := d.exponent + digits.length - 1
  if style.plainFrom ≤ leading ∧ leading < style.plainBelow then
    plain digits leading
  else
    style.scientific digits leading

def render (style : Style) (x : Binary64) : String :=
  if x.isNaN then
    style.nan
  else if x.isFinite then
    let magnitude := if x.isZero then "0.0" else style.decimal (shortest style.tie x)
    if x.isNegative then "-" ++ magnitude else magnitude
  else if x.isNegative then
    style.negativeInfinity
  else
    style.infinity

end Style

end Number

end ValueStore
