import MessageCodec.Number.Binary
import MessageCodec.Number.Numeral

/-!
# Shortest decimal of a double

The fewest significant digits that read back as the same double, and of those the decimal nearest to
its value. The reals that read back form an interval around the value; its ends belong to it when the
integer part of the value is even. On the grid of decimals with a given number of digits only the two
neighbours of the value have to be tried.
-/

namespace MessageCodec.Shortest

/-- The value of a positive finite double and the interval that reads back as it, in quarters of the
last binary place. -/
structure Interval where
  low : Nat
  value : Nat
  high : Nat
  closed : Bool
  /-- The power of two that one quarter stands for. -/
  unit : Int

/-- The interval of a positive finite double. Below a power of two the gap is half as wide. -/
def interval (x : Binary64) : Interval :=
  let m := BinaryFormat.binary64.mantissa x.pattern
  let narrow := BinaryFormat.binary64.fraction x.pattern == 0 && 1 < BinaryFormat.binary64.field x.pattern
  { low := if narrow then 4 * m - 1 else 4 * m - 2
    value := 4 * m
    high := 4 * m + 2
    closed := m % 2 == 0
    unit := BinaryFormat.binary64.exponent x.pattern - 2 }

/-- A number of quarters and a number of grid steps on a common scale. -/
def quarters (i : Interval) (grid : Int) (t : Nat) : Nat := t * twoPow i.unit.toNat * tenPow (-grid).toNat

def stepSize (i : Interval) (grid : Int) : Nat := tenPow grid.toNat * twoPow (-i.unit).toNat

/-- Whether a decimal on a grid reads back as the double. -/
def readsBack (i : Interval) (grid : Int) (c : Nat) : Bool :=
  let p := c * stepSize i grid
  let low := quarters i grid i.low
  let high := quarters i grid i.high
  if i.closed then low ≤ p && p ≤ high else low < p && p < high

/-- The decimal on a grid that reads back and is nearest to the value, a tie going to the even one. -/
def onGrid? (i : Interval) (grid : Int) : Option Nat :=
  let v := quarters i grid i.value
  let step := stepSize i grid
  let below := v / step
  match below != 0 && readsBack i grid below, readsBack i grid (below + 1) with
  | false, false => none
  | true, false => some below
  | false, true => some (below + 1)
  | true, true =>
    let twice := 2 * (v % step)
    if twice < step then some below
    else if step < twice then some (below + 1)
    else some (below + below % 2)

/-- The power of ten of the leading digit of a positive finite double. -/
def leadingPlace (i : Interval) : Int :=
  let scaled := i.value * twoPow i.unit.toNat * tenPow 400 / twoPow (-i.unit).toNat
  ((Numeral.ofNat scaled).length : Int) - 401

/-- Digits and power of ten of the shortest decimal of a positive finite double. Seventeen digits always
suffice. -/
def shortest (x : Binary64) : Nat × Int :=
  let i := interval x
  let place := leadingPlace i
  let found := (List.range 17).findSome? fun (n : Nat) =>
    (onGrid? i (place - n)).map fun c => (c, place - (n : Int))
  found.getD (0, 0)

end MessageCodec.Shortest
