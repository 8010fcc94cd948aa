import AisScript.Text

/-!
# Floating-point literals

A float literal stands for the 64-bit binary number nearest to it, ties going to the even
significand.  It is written back with the fewest decimal digits that stand for the same number; of
several such digit strings the one nearest to the number is taken.  All arithmetic is exact.

* `Double.ofDecimal?`   the number nearest to a decimal, unless it is too large
* `Double.shortest`     the fewest digits that read back
* `Double.general`, `Double.positional`   the two ways of writing them
-/

namespace AisScript

/-- The non-negative number `significand * 2 ^ exponent`.  Below `2 ^ 53` and with the least exponent
that keeps the significand at or above `2 ^ 52`, or with exponent `-1074`. -/
structure Double where
  significand : Nat
  exponent : Int
deriving DecidableEq, Repr

namespace Double

/-- The number zero. -/
def zero : Double := ⟨0, -1074⟩

/-- A quotient rounded to the nearest integer, ties to even. -/
def roundDiv (num den : Nat) : Nat :=
  let q := num / den
  let twice := 2 * (num % den)
  if den < twice ∨ (twice = den ∧ q % 2 = 1) then q + 1 else q

/-- The quotient `num / den` divided by `2 ^ e`, rounded. -/
def scaledRound (num den : Nat) (e : Int) : Nat :=
  if 0 ≤ e then roundDiv num (den * Nat.pow 2 e.toNat) else roundDiv (num * Nat.pow 2 (-e).toNat) den

/-- The least exponent at which a positive quotient has fewer than 54 binary digits, but not less
than that of the smallest number. -/
def exponentFor (num den : Nat) : Int :=
  let guess : Int := (Nat.log2 num : Int) - (Nat.log2 den : Int) - 52
  let fits (e : Int) : Bool :=
    if 0 ≤ e then num < den * Nat.pow 2 (e.toNat + 53) else num * Nat.pow 2 (-e).toNat < den * 0x20000000000000
  let least := if fits (guess - 1) then guess - 1 else if fits guess then guess else guess + 1
  max least (-1074)

/-- The number nearest to a positive quotient, if it is not too large. -/
def ofQuotient? (num den : Nat) : Option Double :=
  let e := exponentFor num den
  let m := scaledRound num den e
  let (m, e) := if m = 0x20000000000000 then (0x10000000000000, e + 1) else (m, e)
  if 971 < e then none else some (if m = 0 then zero else ⟨m, e⟩)

/-- The number nearest to `digits * 10 ^ power`, if it is not too large. -/
def ofDecimal? (digits : Nat) (power : Int) : Option Double :=
  let magnitude : Int := power + (Nat.toDigits 10 digits).length
  if digits = 0 ∨ magnitude < -330 then some zero
  else if 310 < magnitude then none
  else if 0 ≤ power then ofQuotient? (digits * Nat.pow 10 power.toNat) 1
  else ofQuotient? digits (Nat.pow 10 (-power).toNat)

/-- The value of decimal digits. -/
def digitsValue (t : Text) : Nat := t.foldl (fun n b => n * 10 + (b.toNat - 0x30)) 0

/-- The value of an exponent's digits.  It stops growing once it is past any exponent that
matters. -/
def exponentValue (t : Text) : Nat :=
  t.foldl (fun n b => if n < 10000 then n * 10 + (b.toNat - 0x30) else n) 0

/-- The number nearest to a literal: digits, then optionally a point with digits and an exponent. -/
def ofLiteral? (t : Text) : Option Double :=
  let whole := t.takeWhile Text.isDigit
  let rest := t.drop whole.length
  let (fraction, rest) := match rest with
    | 0x2E :: r => (r.takeWhile Text.isDigit, r.dropWhile Text.isDigit)
    | r => ([], r)
  let power : Int := match rest with
    | _ :: 0x2D :: ds => -(exponentValue ds : Int)
    | _ :: 0x2B :: ds => exponentValue ds
    | _ :: ds => exponentValue ds
    | [] => 0
  ofDecimal? (digitsValue (whole ++ fraction)) (power - fraction.length)

/-! ## The shortest digits -/

/-- The numerator and denominator of `n * 2 ^ e`. -/
def ratio (n : Nat) (e : Int) : Nat × Nat :=
  if 0 ≤ e then (n * Nat.pow 2 e.toNat, 1) else (n, Nat.pow 2 (-e).toNat)

/-- Whether `digits * 10 ^ power` is rounded to the given number: it lies between the midpoints to
both neighbours, the midpoints included when the significand is even. -/
def roundsTo (d : Double) (digits : Nat) (power : Int) : Bool :=
  let lowGap := if d.significand = 0x10000000000000 ∧ -1074 < d.exponent then 1 else 2
  let (low, den) := ratio (4 * d.significand - lowGap) (d.exponent - 2)
  let (high, _) := ratio (4 * d.significand + 2) (d.exponent - 2)
  let (num, scale) : Nat × Nat :=
    if 0 ≤ power then (digits * Nat.pow 10 power.toNat, 1) else (digits, Nat.pow 10 (-power).toNat)
  let v := num * den
  if d.significand % 2 = 0 then low * scale ≤ v && v ≤ high * scale
  else low * scale < v && v < high * scale

/-- The decimal exponent just above a positive number: `10 ^ (p - 1) ≤ d < 10 ^ p`. -/
def decimalExponent (d : Double) : Int :=
  let (num, den) := ratio d.significand d.exponent
  let guess : Int := (Nat.toDigits 10 num).length - (Nat.toDigits 10 den).length
  let reached (p : Int) : Bool := if 0 ≤ p then den * Nat.pow 10 p.toNat ≤ num else den ≤ num * Nat.pow 10 (-p).toNat
  if reached guess then guess + 1 else guess

/-- The digits of a positive number on the grid with `count` digits, if one of the two neighbours on
that grid stands for it. -/
def onGrid? (d : Double) (count : Nat) : Option (Nat × Int) :=
  let power := decimalExponent d - count
  let (num, den) := ratio d.significand d.exponent
  let (num, den) := if 0 ≤ power then (num, den * Nat.pow 10 power.toNat) else (num * Nat.pow 10 (-power).toNat, den)
  let below := num / den
  let nearer := roundDiv num den
  let other := if nearer = below then below + 1 else below
  if roundsTo d nearer power then some (nearer, power)
  else if roundsTo d other power then some (other, power)
  else none

/-- Tries grids with more and more digits. -/
def firstGrid (d : Double) : (tries count : Nat) → Nat × Int
  | 0, _ => (d.significand, 0)
  | tries + 1, count =>
    match onGrid? d count with
    | some r => r
    | none => firstGrid d tries (count + 1)

/-- The fewest digits that read back, without trailing zeros, and the position of the decimal point
relative to the first of them. -/
def shortest (d : Double) : Text × Int :=
  if d.significand = 0 then ([], 0)
  else
    let (n, power) := firstGrid d 17 1
    let digits := Text.ofNat n
    let trimmed := (digits.reverse.dropWhile (· = 0x30)).reverse
    (trimmed, digits.length + power)

/-- Digits around a decimal point at `point`, with zeros where there is no digit. -/
def placed (digits : Text) (point : Int) : Text :=
  if point ≤ 0 then
    let fraction := List.replicate (-point).toNat 0x30 ++ digits
    if digits.isEmpty then "0" else "0." ++ fraction
  else
    let n := point.toNat
    let whole := digits.take n ++ List.replicate (n - digits.length) 0x30
    let fraction := digits.drop n
    if fraction.isEmpty then whole else whole ++ "." ++ fraction

/-- The number with all its digits in place. -/
def positional (d : Double) : Text :=
  let (digits, point) := d.shortest
  placed digits point

/-- The number with all digits in place, or with an exponent if it is below `10 ^ -4` or has more
than six digits in front of the point. -/
def general (d : Double) : Text :=
  let (digits, point) := d.shortest
  let e := if digits.isEmpty then 0 else point - 1
  if e < -4 ∨ 6 ≤ e then
    let sign : Text := if e < 0 then "-" else "+"
    let tail := digits.drop 1
    digits.take 1 ++ (if tail.isEmpty then [] else 0x2E :: tail) ++ "e" ++ sign
      ++ Text.padded 2 10 e.natAbs
  else placed digits point

end Double

end AisScript
