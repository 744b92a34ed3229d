import Lox.Number.Binary64

/-!
# Decimals

A decimal is `digits * 10 ^ exponent`. `Decimal.toFloat` rounds one correctly to a binary64 number,
and `Decimal.shortest` goes back: of the decimals that round to a given number it takes one with
the fewest digits, and of those the nearest.
-/

namespace Lox

/-- The value `digits * 10 ^ exponent`. -/
structure Decimal where
  digits : Nat
  exponent : Int
  deriving DecidableEq, Repr

/-- Where a value exactly half way between two shortest candidates goes. -/
inductive Tie where
  | up
  | even
  deriving DecidableEq, Repr

namespace Decimal

/-- The bit pattern of the nearest binary64 number. Exponents that can only give infinity or zero
are decided by size alone, so no huge power of ten is formed. -/
def nearestBits (d : Decimal) : Nat :=
  if d.digits = 0 then 0
  else if 400 < d.exponent then Binary64.infinityBits
  else if (d.digits.log2 : Int) + 1 + 3 * d.exponent < -1080 then 0
  else Binary64.nearest (d.digits * Nat.pow 10 d.exponent.toNat) (Nat.pow 10 (-d.exponent).toNat)

/-- The binary64 number nearest to the decimal, ties going to the even mantissa. -/
def toFloat (d : Decimal) : Float := Float.ofBits d.nearestBits.toUInt64

/-! ### Shortest digits -/

/-- A value and the interval of reals that round to it, measured on the grid of the multiples of
`10 ^ p`: all in one scale, in which the grid's step is `unit`. -/
structure Grid where
  low : Nat
  value : Nat
  high : Nat
  unit : Nat
  /-- Whether the ends belong to the interval. -/
  closed : Bool
  deriving Repr

/-- The grid of the multiples of `10 ^ p` around `mantissa * 2 ^ exponent`. The interval reaches
half way to the neighbouring numbers: below a power of two the neighbour is only half as far. The
ends round to an even mantissa. -/
def Grid.around (mantissa : Nat) (exponent : Int) (p : Int) : Grid :=
  let scale := Nat.pow 2 (exponent - 2).toNat * Nat.pow 10 (-p).toNat
  let below :=
    if mantissa = Binary64.hiddenBit ∧ exponent ≠ Binary64.leastExponent then 1 else 2
  { low := (4 * mantissa - below) * scale
    value := 4 * mantissa * scale
    high := (4 * mantissa + 2) * scale
    unit := Nat.pow 2 (2 - exponent).toNat * Nat.pow 10 p.toNat
    closed := mantissa % 2 = 0 }

/-- Whether the multiple `n` of the grid's step rounds to the value. -/
def Grid.admits (g : Grid) (n : Nat) : Bool :=
  let point := n * g.unit
  if g.closed then g.low ≤ point && point ≤ g.high else g.low < point && point < g.high

/-- The nearer of the two multiples next to the value, among those that round to it. -/
def Grid.closest? (g : Grid) (tie : Tie) : Option Nat :=
  let down := g.value / g.unit
  let up := down + 1
  match g.admits down, g.admits up with
  | true, false => some down
  | false, true => some up
  | false, false => none
  | true, true =>
    let doubled := 2 * (g.value - down * g.unit)
    if doubled < g.unit then some down
    else if g.unit < doubled then some up
    else match tie with
      | .up => some up
      | .even => some (if down % 2 = 0 then down else up)

/-- Tries the grids of `10 ^ (base + n)` down to `10 ^ base`, on which the value lies. -/
def shortestFrom (tie : Tie) (mantissa : Nat) (exponent base : Int) : Nat → Decimal
  | 0 =>
    let g := Grid.around mantissa exponent base
    ⟨g.value / g.unit, base⟩
  | n + 1 =>
    match (Grid.around mantissa exponent (base + (n + 1 : Nat))).closest? tie with
    | some digits => ⟨digits, base + (n + 1 : Nat)⟩
    | none => shortestFrom tie mantissa exponent base n

/-- An exponent `p` with `2 ^ x ≤ 10 ^ p`, not far above the least one. -/
def powerBound (x : Int) : Int := if 0 ≤ x then x / 3 + 1 else -(-x * 3 / 10)

/-- A decimal with the fewest digits among those that round to `mantissa * 2 ^ exponent`, and of
those the nearest. The coarsest grid with a point in the interval gives the fewest digits; grids of
twice the value and above have none. -/
def shortest (tie : Tie) (mantissa : Nat) (exponent : Int) : Decimal :=
  let base := min exponent 0
  let top := powerBound (exponent + mantissa.log2 + 2)
  shortestFrom tie mantissa exponent base (top - base).toNat

end Decimal

end Lox
