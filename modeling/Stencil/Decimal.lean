/-!
# Decimal text of floating-point numbers

A finite number is shown with the fewest decimal digits that read back as the same number, and of
those with the digits nearest to it, always written out without an exponent.

* `Decimal.shortest` finds the digits in exact arithmetic: a double is `m · 2^q`, and a decimal
  reads back as it if it lies in the interval of reals that round to it.
* `Decimal.positional` writes digits and an exponent out.
* `Decimal.toFloat` is the double nearest to a decimal.
-/

namespace Stencil.Decimal

/-! ## The interval of a double -/

/-- The reals that round to the double `center / scale`: from `lower / scale` to `upper / scale`,
the ends included if `closed`. -/
structure Interval where
  lower : Nat
  center : Nat
  upper : Nat
  scale : Nat
  closed : Bool

namespace Interval

/-- The interval of the positive double `mantissa · 2^exponent`. Below a power of two the
neighbour is only half as far away as above, unless the number is one of the smallest. -/
def ofDouble (mantissa : Nat) (exponent : Int) (halfBelow : Bool) : Interval :=
  let raise := Nat.pow 2 exponent.toNat
  ⟨(4 * mantissa - if halfBelow then 1 else 2) * raise, 4 * mantissa * raise,
    (4 * mantissa + 2) * raise, 4 * Nat.pow 2 (-exponent).toNat, mantissa % 2 == 0⟩

/-- Whether the interval holds `digits · num / den`. -/
def holds (interval : Interval) (digits num den : Nat) : Bool :=
  let point := digits * num * interval.scale
  if interval.closed then interval.lower * den ≤ point && point ≤ interval.upper * den
  else interval.lower * den < point && point < interval.upper * den

end Interval

/-! ## Fewest digits -/

/-- The number of decimal digits of a natural number; 0 has one. -/
def digitCount (n : Nat) : Nat :=
  (Nat.toDigits 10 n).length

/-- The number `k` with `10^(k-1) ≤ num / den < 10^k`, for positive `num` and `den`. -/
def order (num den : Nat) : Int :=
  if den ≤ num then digitCount (num / den)
  else
    let places := digitCount (den / num)
    if num * Nat.pow 10 (places - 1) = den then 2 - (places : Int) else 1 - (places : Int)

/-- The decimal `digits · 10^exponent` of `count` digits in an interval that is nearest to its
center, if there is one; of two that are equally near, the larger. -/
def nearestWith (interval : Interval) (count : Nat) : Option (Nat × Int) :=
  let exponent : Int := order interval.center interval.scale - count
  let num := Nat.pow 10 exponent.toNat
  let den := Nat.pow 10 (-exponent).toNat
  let below := interval.center * den / (interval.scale * num)
  let above := below + 1
  match interval.holds below num den, interval.holds above num den with
  | false, false => none
  | true, false => some (below, exponent)
  | false, true => some (above, exponent)
  | true, true =>
    let toBelow := interval.center * den - below * num * interval.scale
    let toAbove := above * num * interval.scale - interval.center * den
    some (if toBelow < toAbove then below else above, exponent)

/-- The first of the given digit counts with which an interval holds a decimal. -/
def firstFit (interval : Interval) : List Nat → Nat × Int
  | [] => (0, 0)
  | count :: rest =>
    match nearestWith interval count with
    | some decimal => decimal
    | none => firstFit interval rest

/-- The decimal with the fewest digits that reads back as a double; seventeen always suffice. -/
def shortest (interval : Interval) : Nat × Int :=
  firstFit interval ((List.range 17).map (· + 1))

/-! ## Writing -/

/-- `digits · 10^exponent` without an exponent and without needless zeros. -/
def positional (digits : Nat) (exponent : Int) : String :=
  let text := Nat.toDigits 10 digits
  if 0 ≤ exponent then String.ofList (text ++ List.replicate exponent.toNat '0')
  else
    let places := (-exponent).toNat
    let padded := List.replicate (places + 1 - text.length) '0' ++ text
    let whole := padded.take (padded.length - places)
    let part := ((padded.drop (padded.length - places)).reverse.dropWhile (· == '0')).reverse
    if part.isEmpty then String.ofList whole else String.ofList (whole ++ '.' :: part)

/-- The number of values of the mantissa field of a double, which has 52 bits. -/
def mantissaRange : Nat := 0x10000000000000

/-- The number of values of the exponent field of a double, which has 11 bits. -/
def exponentRange : Nat := 0x800

/-- The text of the magnitude of a finite double, from the two fields of its bits. -/
def magnitude (exponentBits mantissaBits : Nat) : String :=
  if exponentBits = 0 && mantissaBits = 0 then "0"
  else
    let mantissa := if exponentBits = 0 then mantissaBits else mantissaBits + mantissaRange
    let exponent : Int := (if exponentBits = 0 then 1 else (exponentBits : Int)) - 1075
    let (digits, power) :=
      shortest (.ofDouble mantissa exponent (mantissaBits = 0 && 1 < exponentBits))
    positional digits power

/-- The text of a double. -/
def text (x : Float) : String :=
  let bits := x.toBits.toNat
  let negative := bits / (mantissaRange * exponentRange) == 1
  let exponentBits := bits / mantissaRange % exponentRange
  let mantissaBits := bits % mantissaRange
  if exponentBits + 1 = exponentRange then
    if mantissaBits = 0 then if negative then "-inf" else "inf" else "NaN"
  else (if negative then "-" else "") ++ magnitude exponentBits mantissaBits

/-! ## Reading -/

/-- The double nearest to `digits · 10^exponent`. Outside of the range of doubles it is infinite
or zero. -/
def toFloat (digits : Nat) (exponent : Int) : Float :=
  if digits = 0 then 0
  else
    let size := digitCount digits + exponent
    if 400 < size then 1 / 0
    else if size < -400 then 0
    else if 0 ≤ exponent then OfScientific.ofScientific digits false exponent.toNat
    else OfScientific.ofScientific digits true (-exponent).toNat

end Stencil.Decimal
