import ScenarioLint.Text

/-!
Finite double-precision numbers.

A number is rounded to the nearest double, of two equally near ones to the one with the even
significand.  A double is written with the fewest digits of which it is the nearest double, and of
those as the nearest decimal.
-/

namespace ScenarioLint

/-- A finite double: the sign, a significand below `2 ^ 53`, and the power of two that scales it.
    The power is the least one that the significand admits. -/
structure Binary64 where
  negative : Bool
  significand : Nat
  power : Int
  deriving DecidableEq, Repr

namespace Binary64

/-- The least significand of a double that is not tiny, `2 ^ 52`. -/
def leastNormal : Nat := 4503599627370496

def scaled (base num den : Nat) (power : Int) : Nat × Nat :=
  match power with
  | .ofNat n => (num * base.pow n, den)
  | .negSucc n => (num, den * base.pow (n + 1))

/-- The integer nearest to a quotient, of two equally near ones the even one. -/
def roundEven (num den : Nat) : Nat :=
  let floor := num / den
  let twice := 2 * (num % den)
  if twice < den then floor
  else if den < twice then floor + 1
  else if floor % 2 = 0 then floor else floor + 1

/-- The least power of two with which the quotient has a significand of at most 53 bits, and never
    below the least power of all. -/
def powerFor (num den : Nat) : Int :=
  let guess : Int := (Nat.log2 num : Int) - (Nat.log2 den : Int) - 52
  let (n, d) := scaled 2 num den (-guess)
  max (-1074) (if n / d < leastNormal then guess - 1 else guess)

/-- The double nearest to a positive quotient, or none beyond the largest double. -/
def nearest? (negative : Bool) (num den : Nat) : Option Binary64 :=
  let power := powerFor num den
  let (n, d) := scaled 2 num den (-power)
  let m := roundEven n d
  let (m, power) := if m = 2 * leastNormal then (leastNormal, power + 1) else (m, power)
  if 971 < power then none else some ⟨negative, m, power⟩

def zero (negative : Bool) : Binary64 :=
  ⟨negative, 0, -1074⟩

/-- The double nearest to a quotient, or none beyond the largest double. -/
def round? (negative : Bool) (num den : Nat) : Option Binary64 :=
  if num = 0 then some (zero negative) else nearest? negative num den

/-- The double nearest to ten to the power of `n`. -/
def powerOfTen? (n : Nat) : Option Binary64 :=
  round? false (Nat.pow 10 n) 1

/-- The size of a double as a quotient. -/
def ratio (x : Binary64) : Nat × Nat :=
  scaled 2 x.significand 1 x.power

def times? (x y : Binary64) : Option Binary64 :=
  let (a, b) := x.ratio
  let (c, d) := y.ratio
  round? (x.negative != y.negative) (a * c) (b * d)

def over? (x y : Binary64) : Option Binary64 :=
  let (a, b) := x.ratio
  let (c, d) := y.ratio
  round? (x.negative != y.negative) (a * d) (b * c)

/-- The greatest power of ten that is not beyond the largest double. -/
def greatestTen : Nat := 308

/-- Scales a double by a power of ten, with a rounding at each step: by one product or quotient if
    there is a double next to the power, and otherwise by quotients that make the power less
    negative. -/
def scale? : Nat → Binary64 → Int → Option Binary64
  | 0, _, _ => none
  | fuel + 1, x, exponent => do
    if exponent.natAbs ≤ greatestTen then
      let ten ← powerOfTen? exponent.natAbs
      if 0 ≤ exponent then x.times? ten else x.over? ten
    else if x.significand = 0 then some x
    else if 0 ≤ exponent then none
    else scale? fuel (← x.over? (← powerOfTen? greatestTen)) (exponent + greatestTen)

/-- Digits and a power of ten in double arithmetic, or none beyond the largest double. -/
def ofScaled? (negative : Bool) (digits : Nat) (exponent : Int) : Option Binary64 := do
  let x ← round? negative digits 1
  x.scale? (exponent.natAbs / greatestTen + 1) exponent

/-- The double nearest to a decimal, or none beyond the largest double. -/
def ofDecimal? (negative : Bool) (digits : Nat) (exponent : Int) : Option Binary64 :=
  let size : Int := (Text.ofNat digits).length + exponent
  if digits = 0 || size < -330 then some (zero negative)
  else if 330 < size then none
  else
    let (n, d) := scaled 10 digits 1 exponent
    nearest? negative n d

/-- A decimal number: digits and the power of ten that scales them. -/
structure Decimal where
  digits : Nat
  exponent : Int
  deriving DecidableEq, Repr

/-- The number of digits in front of the point, or minus the zeros behind it, of a positive
    quotient. -/
def pointAt (num den : Nat) : Int :=
  let guess : Int := ((Nat.log2 num : Int) - (Nat.log2 den : Int)) * 30103 / 100000
  let fits (k : Int) : Bool :=
    let (n, d) := scaled 10 num den (-k)
    n < d
  if fits (guess - 1) then guess - 1
  else if fits guess then guess
  else if fits (guess + 1) then guess + 1
  else guess + 2

/-- Tries the grids of `count` digits and more: the multiple of the grid's step next below the
    number or next above it, whichever reads back, and of two that do the nearer. -/
def shortestFrom (fuel count : Nat) (x : Binary64) (point : Int) : Decimal :=
  let exponent := point - count
  let (n, d) := scaled 10 1 1 (-exponent)
  let (num, den) := scaled 2 (x.significand * n) d x.power
  let below := num / den
  let above := below + 1
  let reads (m : Nat) : Bool := ofDecimal? x.negative m exponent = some x
  let nearBelow := 2 * (num % den) < den || (2 * (num % den) = den && below % 2 = 0)
  if reads below && (nearBelow || !reads above) then ⟨below, exponent⟩
  else if reads above then ⟨above, exponent⟩
  else
    match fuel with
    | 0 => ⟨below, exponent⟩
    | fuel + 1 => shortestFrom fuel (count + 1) x point

def shortest (x : Binary64) : Decimal :=
  if x.significand = 0 then ⟨0, 0⟩
  else
    let (num, den) := scaled 2 x.significand 1 x.power
    shortestFrom 17 1 x (pointAt num den)

/-- Digits with a point behind the first one, unless it is the only one. -/
def withPoint : Text → Text
  | [] => []
  | [d] => [d]
  | d :: rest => d :: '.' :: rest

/-- The written form: with all places from `0.00001` up to sixteen digits in front of the point, and
    otherwise with one digit in front of it and a signed exponent. -/
def written (x : Binary64) : Text :=
  let ⟨digits, exponent⟩ := x.shortest
  let sign := if x.negative then ['-'] else []
  let ds := Text.ofNat digits
  let point : Int := ds.length + exponent
  let body :=
    if digits = 0 then "0.0".toList
    else
      let ds := (ds.reverse.dropWhile (· == '0')).reverse
      if -5 < point && point ≤ 0 then
        "0.".toList ++ List.replicate (-point).toNat '0' ++ ds
      else if 0 < point && point ≤ 16 then
        let front := point.toNat
        if ds.length ≤ front then ds ++ List.replicate (front - ds.length) '0' ++ ".0".toList
        else ds.take front ++ '.' :: ds.drop front
      else
        let e := point - 1
        withPoint ds ++ ['e', if 0 ≤ e then '+' else '-'] ++ Text.ofNat e.natAbs
  sign ++ body

end Binary64

end ScenarioLint
