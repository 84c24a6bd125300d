import RouterClient.Decimal.Shortest

/-! # Numbers of a JSON text

A numeral is the text of a number, cut into its parts. Its value is an integer when it is written
as one and fits in 64 bits, and otherwise a binary floating point number: the digits that fit in
64 bits, scaled by a power of ten in one step.
-/

namespace RouterClient.Json

inductive Number where
  | integer (n : Int)
  | float (x : Float)
  deriving BEq, Repr

namespace Number

/-- The floating point number nearest to the number. -/
def toFloat : Number → Float
  | integer n => if n < 0 then -n.natAbs.toUInt64.toFloat else n.toNat.toUInt64.toFloat
  | float x => x

/-- The bit of a floating point number's encoding that holds its sign. -/
def signBit : Nat := 0x8000000000000000

/-- The bit above the fraction in a floating point number's encoding: the one that the
significand of a normal number has and the encoding leaves out. -/
def hiddenBit : Nat := 0x10000000000000

/-- A floating point number's text: as few digits as read back, with a point in numbers from
`0.00001` up to 16 digits before the point, and with a signed exponent in all others. -/
def floatText (x : Float) : String :=
  let bits := x.toBits.toNat
  let sign := if bits ≥ signBit then "-" else ""
  let biased := bits % signBit / hiddenBit
  let fraction := bits % hiddenBit
  let m := if biased = 0 then fraction else fraction + hiddenBit
  if m = 0 then sign ++ "0.0"
  else
    let scaled := Decimal.shortest m ((max biased 1 : Nat) - 1075)
    let digits := (toString scaled.digits).toList
    let count : Int := digits.length
    let point := count + scaled.exponent
    let zeros (n : Int) := List.replicate n.toNat '0'
    let body : List Char :=
      if 0 ≤ scaled.exponent ∧ point ≤ 16 then digits ++ zeros scaled.exponent ++ ['.', '0']
      else if 0 < point ∧ point ≤ 16 then
        digits.take point.toNat ++ '.' :: digits.drop point.toNat
      else if -5 < point ∧ point ≤ 0 then '0' :: '.' :: zeros (-point) ++ digits
      else
        let mantissa := match digits with
          | first :: second :: more => first :: '.' :: second :: more
          | few => few
        let plus := if point < 1 then [] else ['+']
        mantissa ++ 'e' :: plus ++ (toString (point - 1)).toList
    sign ++ String.ofList body

def text : Number → String
  | integer n => toString n
  | float x => floatText x

end Number

/-- The text of a number, cut into its parts. -/
structure Numeral where
  negative : Bool
  whole : List Char
  /-- The digits after the point, where there is a point. -/
  fraction : Option (List Char)
  /-- Whether the exponent is negative, and its digits. -/
  exponent : Option (Bool × List Char)
  deriving DecidableEq, Repr

namespace Numeral

/-- The largest significand that is kept: that of 64 bits. -/
def significandLimit : Nat := 0xFFFFFFFFFFFFFFFF

/-- Append digits to a significand as long as it fits; the digits that do not fit are left. -/
def accumulate (significand : Nat) : List Char → Nat × List Char
  | [] => (significand, [])
  | c :: cs =>
    let next := significand * 10 + (c.toNat - '0'.toNat)
    if next ≤ significandLimit then accumulate next cs else (significand, c :: cs)

/-- `10 ^ n` as a floating point number, for `n` up to 308. -/
def powerOfTen (n : Nat) : Float :=
  Float.ofScientific 1 false n

/-- Divide by `10 ^ n`, by `10 ^ 308` at a time. -/
def scaleDown (x : Float) (n : Nat) : Float :=
  if n ≤ 308 then x / powerOfTen n
  else if x == 0 then x
  else scaleDown (x / powerOfTen 308) (n - 308)
termination_by n

/-- Multiply by `10 ^ n`; none when the result is too large. -/
def scaleUp? (x : Float) (n : Nat) : Option Float :=
  if n ≤ 308 then
    let scaled := x * powerOfTen n
    if scaled.isInf then none else some scaled
  else if x == 0 then some x else none

/-- The value of a numeral; none when it is beyond the largest floating point number. -/
def value? (n : Numeral) : Option Number :=
  let (significand, unread) := accumulate 0 n.whole
  let sign (x : Float) : Number := .float (if n.negative then -x else x)
  if unread.isEmpty && n.fraction.isNone && n.exponent.isNone then
    if n.negative then
      if significand = 0 ∨ significand > Number.signBit then some (sign significand.toUInt64.toFloat)
      else some (.integer (-significand))
    else some (.integer significand)
  else
    let after := n.fraction.getD []
    let (significand, dropped) := accumulate significand after
    let start : Int := unread.length - (after.length - dropped.length : Nat)
    let written : Int := match n.exponent with
      | none => 0
      | some (negative, digits) =>
        let magnitude : Nat := digits.foldl (fun e c => e * 10 + (c.toNat - '0'.toNat)) 0
        if negative then -magnitude else magnitude
    let exponent := start + written
    let x := significand.toUInt64.toFloat
    if exponent < 0 then some (sign (scaleDown x (-exponent).toNat))
    else (scaleUp? x exponent.toNat).map sign

end Numeral

end RouterClient.Json
