import ValueStore.Number.Binary64

/-!
# Shortest decimals

The decimal with the fewest digits that still reads back as a given number. A
number has around it an interval of reals that round to it. Among the grids of
multiples of a power of ten, the coarsest with a point in that interval gives the
fewest digits, and if both neighbours of the number on that grid lie inside, the
nearer one is taken. All arithmetic is exact.
-/

namespace ValueStore

namespace Number

structure Decimal where
  digits : Nat
  exponent : Int
  deriving DecidableEq

inductive Tie where
  | toLarger
  | toEven
  deriving DecidableEq

/-- A positive number, and the reals that round to it: `2 ^ exponent` is their common unit. -/
structure RoundingInterval where
  lower : Nat
  value : Nat
  upper : Nat
  exponent : Int
  /-- Whether the two ends round to the number as well. -/
  closed : Bool

namespace RoundingInterval

/--
Half the gap to either neighbour belongs to the number. The gap below a power of two is half
as wide as the one above. An end goes to the neighbour with the even significand.
-/
def ofBinary64 (x : Binary64) : RoundingInterval :=
  let m := x.significand
  let gapBelow := if x.fractionField = 0 ∧ 1 < x.exponentField then 1 else 2
  { lower := 4 * m - gapBelow, value := 4 * m, upper := 4 * m + 2,
    exponent := x.exponent - 2, closed := m % 2 == 0 }

/-- The interval and the step of the grid `10 ^ p`, both over one common unit. -/
def onGrid (i : RoundingInterval) (p : Int) : RoundingInterval × Nat :=
  let scale := Nat.pow 2 i.exponent.toNat * Nat.pow 10 (-p).toNat
  ({ i with lower := i.lower * scale, value := i.value * scale, upper := i.upper * scale },
    Nat.pow 2 (-i.exponent).toNat * Nat.pow 10 p.toNat)

def contains (i : RoundingInterval) (point : Nat) : Bool :=
  if i.closed then
    i.lower ≤ point && point ≤ i.upper
  else
    i.lower < point && point < i.upper

def nearest? (i : RoundingInterval) (tie : Tie) (p : Int) : Option Nat :=
  let (j, step) := i.onGrid p
  let below := j.value / step
  let excess := 2 * (j.value % step)
  match j.contains (below * step), j.contains ((below + 1) * step) with
  | false, false => none
  | true, false => some below
  | false, true => some (below + 1)
  | true, true =>
      if excess < step then some below
      else if step < excess then some (below + 1)
      else
        match tie with
        | .toLarger => some (below + 1)
        | .toEven => some (if below % 2 = 0 then below else below + 1)

def coarsest (i : RoundingInterval) (tie : Tie) : Nat -> Int -> Decimal
  | 0, p => ⟨(i.onGrid p).1.value / (i.onGrid p).2, p⟩
  | n + 1, p =>
      match i.nearest? tie p with
      | some digits => ⟨digits, p⟩
      | none => i.coarsest tie n (p - 1)

/--
A power of ten above the number, and above it by less than a factor of a hundred. The number has at
most one more bit than its logarithm, and each bit counts for a little over 0.301 digits.
-/
def magnitude (i : RoundingInterval) : Int :=
  (i.value.log2 + 1 + i.exponent) * 30103 / 100000 + 1

end RoundingInterval

/--
The shortest decimal of a finite number that is not a zero, its sign left out. Seventeen digits
always suffice, so that no more than twenty grids have to be tried.
-/
def shortest (tie : Tie) (x : Binary64) : Decimal :=
  let interval := RoundingInterval.ofBinary64 x
  interval.coarsest tie 20 interval.magnitude

end Number

end ValueStore
