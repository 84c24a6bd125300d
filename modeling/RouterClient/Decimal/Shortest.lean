/-! # The shortest decimal that reads back

A positive binary number `m · 2 ^ q` stands for all reals that round to it. Of the decimal
numbers among them `shortest` finds one with the fewest digits, and of those the nearest.
All arithmetic is in natural numbers, a quarter of the binary unit being the unit of the
interval's ends.
-/

namespace RouterClient.Decimal

/-- `digits · 10 ^ exponent`. -/
structure Scaled where
  digits : Nat
  exponent : Int
  deriving DecidableEq, Repr

/-- The reals that round to `value`, all on the scale on which one unit in the last decimal place
is `unit`. -/
structure Interval where
  low : Nat
  value : Nat
  high : Nat
  unit : Nat
  /-- Whether the ends themselves round to the value. -/
  closed : Bool

/-- Whether `digits` units lie in the interval. -/
def Interval.contains (i : Interval) (digits : Nat) : Bool :=
  let point := digits * i.unit
  if i.closed then i.low ≤ point && point ≤ i.high else i.low < point && point < i.high

/-- The neighbours of the value that are a whole number of units, the nearer one first; the even
one first when they are equally near. -/
def Interval.neighbours (i : Interval) : List Nat :=
  let floor := i.value / i.unit
  let below := i.value - floor * i.unit
  let above := i.unit - below
  if below < above || (below == above && floor % 2 == 0) then [floor, floor + 1]
  else [floor + 1, floor]

/-- The interval of `m · 2 ^ q` in units of `10 ^ exponent`. The next smaller number is only half
as far away when `m` is the least 53-bit number. -/
def Interval.of (m : Nat) (q : Int) (exponent : Int) : Interval :=
  let factor := Nat.pow 2 (q - 2).toNat * Nat.pow 10 (-exponent).toNat
  let below := if m = Nat.pow 2 52 ∧ q > -1074 then 1 else 2
  { low := (4 * m - below) * factor
    value := 4 * m * factor
    high := (4 * m + 2) * factor
    unit := Nat.pow 2 (2 - q).toNat * Nat.pow 10 exponent.toNat
    closed := m % 2 == 0 }

/-- The first place, from `exponent` downwards, that has a positive hit. -/
def search (m : Nat) (q : Int) : (places : Nat) → (exponent : Int) → Scaled
  | 0, exponent => ⟨(Interval.of m q exponent).value / (Interval.of m q exponent).unit, exponent⟩
  | places + 1, exponent =>
    let i := Interval.of m q exponent
    match i.neighbours.find? fun digits => 0 < digits && i.contains digits with
    | some digits => ⟨digits, exponent⟩
    | none => search m q places (exponent - 1)

/-- The decimal with the fewest digits that rounds to `m · 2 ^ q`, for a positive 53-bit `m`. The
search starts above the number's own magnitude; 17 digits always read back. -/
def shortest (m : Nat) (q : Int) : Scaled :=
  search m q 22 ((q + Nat.log2 m) * 30103 / 100000 + 2)

end RouterClient.Decimal
