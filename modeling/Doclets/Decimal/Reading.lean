/-!
Reading a decimal number into a double. The digits are gathered into a 64-bit significand and a
power of ten, and the double is the significand, rounded, times or divided by that power: a quick
reading that may miss the nearest double by a unit in the last place.
-/

namespace Doclets.Decimal

/-- The powers of ten that a double holds end at `10 ^ 308`. -/
def largestPower : Nat := 308

def powerOfTen (n : Nat) : Float := Float.ofScientific 1 false n

/-- Appends a digit to a significand, if 64 bits hold the result. -/
def pushDigit? (significand digit : Nat) : Option Nat :=
  let next := significand * 10 + digit
  if next < 0x10000000000000000 then some next else none

/-- Digits of the whole part: as many as fit go into the significand, and each one left over
raises the exponent. -/
def gatherWhole (significand : Nat) : List Nat → Nat × Nat
  | [] => (significand, 0)
  | d :: ds =>
    match pushDigit? significand d with
    | some next => gatherWhole next ds
    | none => (significand, (d :: ds).length)

/-- Digits after the point: each one that fits lowers the exponent; from the first one that does
not fit all are ignored. -/
def gatherFraction (significand places : Nat) : List Nat → Nat × Nat
  | [] => (significand, places)
  | d :: ds =>
    match pushDigit? significand d with
    | some next => gatherFraction next (places + 1) ds
    | none => (significand, places)

/-- The digits of an exponent, or nothing when it is beyond 31 bits. -/
def gatherExponent? (value : Nat) : List Nat → Option Nat
  | [] => some value
  | d :: ds =>
    let next := value * 10 + d
    if next < 0x80000000 then gatherExponent? next ds else none

/-- Divides by `10 ^ n`, in steps of `10 ^ 308` until the value is zero. The first argument bounds
the steps: after four of them every 64-bit value is zero. -/
def divideByPower : Nat → Float → Nat → Float
  | 0, _, _ => 0
  | steps + 1, x, n =>
    if n ≤ largestPower then x / powerOfTen n
    else if x == 0 then x
    else divideByPower steps (x / powerOfTen largestPower) (n - largestPower)

/-- `significand * 10 ^ exponent`, unless that is beyond the finite doubles. -/
def scale? (significand : Nat) (exponent : Int) : Option Float :=
  let x := significand.toUInt64.toFloat
  if 0 ≤ exponent then
    if exponent.toNat ≤ largestPower then
      let y := x * powerOfTen exponent.toNat
      if y.isInf then none else some y
    else if x == 0 then some x
    else none
  else some (divideByPower 5 x (-exponent).toNat)

/-- A number as it is written: a sign, the digits before and after the point, and the exponent
with its sign. A missing part is `none`. -/
structure Literal where
  negative : Bool
  wholeDigits : List Nat
  fraction : Option (List Nat)
  exponent : Option (Bool × List Nat)

inductive Number where
  | integer (value : Int)
  | double (value : Float)

/-- The value of a number, unless it overflows. A number without fraction and exponent that fits
64 bits is an integer; `-0` is a double, as is everything else. -/
def Literal.value? (l : Literal) : Option Number :=
  let sign (x : Float) : Number := .double (if l.negative then -x else x)
  let (significand, dropped) := gatherWhole 0 l.wholeDigits
  match l.fraction, l.exponent with
  | none, none =>
    if dropped ≠ 0 then (scale? significand dropped).map sign
    else if !l.negative then some (.integer significand)
    else if significand ≠ 0 ∧ significand ≤ 0x8000000000000000 then some (.integer (-(significand : Int)))
    else some (sign significand.toUInt64.toFloat)
  | fraction, exponent =>
    let (significand, places) := gatherFraction significand 0 (fraction.getD [])
    let start : Int := dropped - places
    match exponent with
    | none => (scale? significand start).map sign
    | some (down, digits) =>
      match gatherExponent? 0 digits with
      | some e => (scale? significand (if down then start - e else start + e)).map sign
      | none => if significand ≠ 0 ∧ !down then none else some (sign 0)

end Doclets.Decimal
