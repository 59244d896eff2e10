/-!
The fewest decimal digits that read back as a given binary floating-point number. A finite
`Float` is `mantissa * 2 ^ exponent`; every real nearer to it than to its neighbours reads back as
it, and so do the two ends of that interval when the mantissa is even. For one digit, two digits
and so on the two decimals of that many digits next to the number are tried; the first count with
a decimal in the interval wins, and of two such decimals the nearer.
-/

namespace Doclets.Decimal

/-- `digits * 10 ^ exponent`, with a sign. -/
structure Scientific where
  negative : Bool
  digits : Nat
  exponent : Int

/-- A finite float taken apart: its value is `mantissa * 2 ^ exponent`, with a sign. -/
structure Parts where
  negative : Bool
  mantissa : Nat
  exponent : Int
  /-- The next smaller number is half a step nearer: the mantissa is the least of its binade. -/
  lowest : Bool

def Parts.ofBits (bits : Nat) : Parts :=
  let negative : Bool := bits / 0x8000000000000000 % 2 == 1
  let field : Nat := bits / 0x10000000000000 % 2048
  let fraction : Nat := bits % 0x10000000000000
  if field == 0 then ⟨negative, fraction, -1074, false⟩
  else ⟨negative, 0x10000000000000 + fraction, (field : Int) - 1075, fraction == 0 && decide (1 < field)⟩

def Parts.ofFloat (x : Float) : Parts := .ofBits x.toBits.toNat

/-- A non-negative fraction. -/
structure Fraction where
  num : Nat
  den : Nat

/-- `n * base ^ e`. -/
def Fraction.scaled (n base : Nat) (e : Int) : Fraction :=
  if 0 ≤ e then ⟨n * Nat.pow base e.toNat, 1⟩ else ⟨n, Nat.pow base (-e).toNat⟩

def Fraction.le (a b : Fraction) : Bool := decide (a.num * b.den ≤ b.num * a.den)

def Fraction.lt (a b : Fraction) : Bool := decide (a.num * b.den < b.num * a.den)

/-- The interval of reals that read back as a number, and whether its ends belong to it. -/
structure Interval where
  low : Fraction
  value : Fraction
  high : Fraction
  closed : Bool

def Parts.interval (p : Parts) : Interval where
  low := .scaled (4 * p.mantissa - if p.lowest then 1 else 2) 2 (p.exponent - 2)
  value := .scaled (4 * p.mantissa) 2 (p.exponent - 2)
  high := .scaled (4 * p.mantissa + 2) 2 (p.exponent - 2)
  closed := p.mantissa % 2 == 0

def Interval.holds (i : Interval) (x : Fraction) : Bool :=
  if i.closed then i.low.le x && x.le i.high else i.low.lt x && x.lt i.high

/-- The number of decimal digits of `n`; zero has none. -/
def digitCount (n : Nat) : Nat := if n = 0 then 0 else (Nat.toDigits 10 n).length

/-- The exponent of the leading decimal digit of a positive fraction. -/
def Fraction.magnitude (x : Fraction) : Int :=
  let guess : Int := (digitCount x.num : Int) - digitCount x.den
  if (Fraction.scaled 1 10 guess).le x then guess else guess - 1

/-- The whole part of `x / 10 ^ e`. -/
def Fraction.quotient (x : Fraction) (e : Int) : Nat :=
  if 0 ≤ e then x.num / (x.den * Nat.pow 10 e.toNat)
  else x.num * Nat.pow 10 (-e).toNat / x.den

/-- Whether `d * 10 ^ e` is at least as near to `x` as `(d + 1) * 10 ^ e`. -/
def Fraction.nearerBelow (x : Fraction) (d : Nat) (e : Int) : Bool :=
  x.le (.scaled (10 * d + 5) 10 (e - 1))

/-- The decimal on the grid of step `10 ^ e` that reads back, if one of the two around the value
does. -/
def Interval.onGrid (i : Interval) (e : Int) : Option Nat :=
  let d := i.value.quotient e
  let below := i.holds (.scaled d 10 e)
  let above := i.holds (.scaled (d + 1) 10 e)
  if below && (!above || i.value.nearerBelow d e) then some d
  else if above then some (d + 1)
  else none

/-- Tries the grids with `count` digits and more, `left` of them. -/
def Interval.firstGrid (i : Interval) (magnitude : Int) : Nat → Nat → Nat × Int
  | 0, _ => (0, 0)
  | left + 1, count =>
    let e := magnitude - count + 1
    match i.onGrid e with
    | some d => (d, e)
    | none => firstGrid i magnitude left (count + 1)

/-- Moves the zeros at the end of the digits, at most `left`, into the exponent. -/
def dropZeros : Nat → Nat → Int → Nat × Int
  | 0, d, e => (d, e)
  | left + 1, d, e => if d ≠ 0 ∧ d % 10 = 0 then dropZeros left (d / 10) (e + 1) else (d, e)

/-- The fewest digits that read back as `x`, which is finite. Seventeen always do. -/
def shortest (x : Float) : Scientific :=
  let p := Parts.ofFloat x
  if p.mantissa = 0 then ⟨p.negative, 0, 0⟩
  else
    let i := p.interval
    let (d, e) := i.firstGrid i.value.magnitude 17 1
    let (d, e) := dropZeros 17 d e
    ⟨p.negative, d, e⟩

/-- The value of a float that is a whole number. -/
def whole? (x : Float) : Option Int :=
  if !x.isFinite then none
  else
    let p := Parts.ofFloat x
    let unsigned : Option Nat :=
      if 0 ≤ p.exponent then some (p.mantissa * Nat.pow 2 p.exponent.toNat)
      else
        let step := Nat.pow 2 (-p.exponent).toNat
        if p.mantissa % step = 0 then some (p.mantissa / step) else none
    unsigned.map fun n => if p.negative then -(n : Int) else n

def signText (negative : Bool) : String := if negative then "-" else ""

def zeros (n : Nat) : String := String.ofList (List.replicate n '0')

/-- Positional notation: no exponent, and no point in a whole number. -/
def Scientific.plain (s : Scientific) : String :=
  let digits := toString s.digits
  let text :=
    if 0 ≤ s.exponent then
      if s.digits = 0 then "0" else digits ++ zeros s.exponent.toNat
    else
      let places := (-s.exponent).toNat
      if digits.length ≤ places then "0." ++ zeros (places - digits.length) ++ digits
      else
        String.ofList (digits.toList.take (digits.length - places)) ++ "." ++
          String.ofList (digits.toList.drop (digits.length - places))
  signText s.negative ++ text

/-- A float in positional notation. -/
def plainText (x : Float) : String :=
  if x.isNaN then "NaN"
  else if x.isFinite then (shortest x).plain
  else if x < 0 then "-inf" else "inf"

end Doclets.Decimal
