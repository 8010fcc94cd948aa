import AisScript.Text.Duration
import AisScript.Text.Quoted

/-!
# Values on the command line

Numbers, truth values and spans of time as they are given to flags.

* `integer`    decimal, or with a prefix for another base
* `bool`       a few spellings of true and false
* `duration`   amounts with units, one after the other
-/

namespace AisScript.Command

open Text (isDigit)

/-- Why a value is refused. -/
inductive ValueError where
  | notInteger (written : Text)
  | integerRange (written : Text)
  | notBool (written : Text)
  | notDuration (written : Text)
  | unitMissing (written : Text)
  | unitUnknown (unit written : Text)
deriving DecidableEq, Repr

/-- A duration between quotes: bytes other than visible ASCII characters are written as numbers. -/
def quotedBytes (t : Text) : Text :=
  let shown (b : UInt8) : Text :=
    if b = 0x22 || b = 0x5C then [0x5C, b]
    else if b < 0x20 || 0x80 ≤ b then "\\x" ++ Text.padded 2 16 b.toNat
    else [b]
  [0x22] ++ t.flatMap shown ++ [0x22]

/-- The words of an error. -/
def ValueError.message : ValueError → Text
  | .notInteger t => "strconv.ParseInt: parsing " ++ t.quote ++ ": invalid syntax"
  | .integerRange t => "strconv.ParseInt: parsing " ++ t.quote ++ ": value out of range"
  | .notBool t => "strconv.ParseBool: parsing " ++ t.quote ++ ": invalid syntax"
  | .notDuration t => "time: invalid duration " ++ quotedBytes t
  | .unitMissing t => "time: missing unit in duration " ++ quotedBytes t
  | .unitUnknown u t => "time: unknown unit " ++ quotedBytes u ++ " in duration " ++ quotedBytes t

/-! ## Integers -/

/-- The sign in front of a number, and the rest. -/
def signed : Text → Bool × Text
  | 0x2D :: t => (true, t)
  | 0x2B :: t => (false, t)
  | t => (false, t)

/-- A letter as a small one. -/
def small (b : UInt8) : UInt8 := if 0x41 ≤ b && b ≤ 0x5A then b + 0x20 else b

/-- The base of a number, and its digits.  A lone zero in front of the digits means base eight. -/
def based (t : Text) : Nat × Text :=
  match t with
  | 0x30 :: p :: d :: ds =>
    if small p = 0x62 then (2, d :: ds)
    else if small p = 0x6F then (8, d :: ds)
    else if small p = 0x78 then (16, d :: ds)
    else (8, p :: d :: ds)
  | 0x30 :: ds => (8, ds)
  | t => (10, t)

/-- The value of a digit or letter. -/
def digitOf (b : UInt8) : Option Nat :=
  if isDigit b then some (b.toNat - 0x30)
  else if 0x61 ≤ small b && small b ≤ 0x7A then some ((small b).toNat - 0x61 + 10)
  else none

/-- The value of digits with underscores between them, below `2 ^ 64`.  Being too large is found
before what stands behind is looked at. -/
def magnitude (written : Text) (base : Nat) : (n : Nat) → Text → Except ValueError Nat
  | n, [] => .ok n
  | n, b :: t =>
    if b = 0x5F then magnitude written base n t
    else match digitOf b with
      | none => .error (.notInteger written)
      | some d =>
        if base ≤ d then .error (.notInteger written)
        else if 0x10000000000000000 ≤ n * base + d then .error (.integerRange written)
        else magnitude written base (n * base + d) t

/-- Whether every underscore stands between digits.  `ok` says that one may follow here. -/
def underscoresOk : (ok : Bool) → Text → Bool
  | _, [] => true
  | ok, b :: t =>
    if b = 0x5F then ok && !t.isEmpty && underscoresOk false t
    else underscoresOk true t

/-- An integer of 64 bits. -/
def integer (t : Text) : Except ValueError Int := do
  let (negative, body) := signed t
  if body.isEmpty then throw (.notInteger t)
  let (base, digits) := based body
  let n ← magnitude t base 0 digits
  if !underscoresOk (base ≠ 10) digits then throw (.notInteger t)
  if negative then
    if n ≤ 0x8000000000000000 then return -(n : Int) else throw (.integerRange t)
  else if n < 0x8000000000000000 then return n else throw (.integerRange t)

/-! ## Truth values -/

/-- True or false, in one of their spellings. -/
def bool (t : Text) : Except ValueError Bool :=
  if (["1", "t", "T", "true", "TRUE", "True"] : List Text).contains t then .ok true
  else if (["0", "f", "F", "false", "FALSE", "False"] : List Text).contains t then .ok false
  else .error (.notBool t)

/-! ## Durations -/

/-- The nanoseconds of a unit of time. -/
def unit? (t : Text) : Option Nat :=
  ([("ns", 1), ("us", 1000), ("µs", 1000), ("μs", 1000), ("ms", 1000000), ("s", 1000000000),
    ("m", 60000000000), ("h", 3600000000000)] : List (Text × Nat)).lookup t

/-- The value of decimal digits. -/
def decimal (t : Text) : Nat := t.foldl (fun n b => n * 10 + (b.toNat - 0x30)) 0

/-- The digits behind a point: their value and the power of ten to divide it by.  Digits that no
64 bits can hold any more are left out, with all behind them. -/
structure Fraction where
  value : UInt64 := 0
  scale : Float := 1

/-- The fraction of digits, given the fraction of those in front of them. -/
def Fraction.read (f : Fraction) : Text → Fraction
  | [] => f
  | b :: t =>
    let next := f.value.toNat * 10 + (b.toNat - 0x30)
    if 0x7FFFFFFFFFFFFFFF / 10 < f.value.toNat || 0x8000000000000000 < next then f
    else Fraction.read ⟨next.toUInt64, f.scale * 10⟩ t

/-- The nanoseconds of a fraction of a unit, as far as floating-point numbers tell. -/
def Fraction.nanos (f : Fraction) (unit : Nat) : Nat :=
  if f.value = 0 then 0 else (f.value.toFloat * (unit.toUInt64.toFloat / f.scale)).toUInt64.toNat

/-- Adds up amounts with their units.  Neither an amount nor the sum may be more than `2 ^ 63`
nanoseconds; a sum of exactly twice that is none at all.  `fuel` bounds the number of amounts. -/
def amounts (written : Text) : (fuel : Nat) → (sum : Nat) → Text → Except ValueError Nat
  | _, sum, [] => .ok sum
  | 0, _, _ => .error (.notDuration written)
  | fuel + 1, sum, t =>
    let whole := t.takeWhile isDigit
    let rest := t.drop whole.length
    let (fraction, rest) := match rest with
      | 0x2E :: r => (r.takeWhile isDigit, r.dropWhile isDigit)
      | r => ([], r)
    let word := rest.takeWhile fun b => !isDigit b && b ≠ 0x2E
    if (whole.isEmpty && fraction.isEmpty) || 0x8000000000000000 < decimal whole then
      .error (.notDuration written)
    else if word.isEmpty then .error (.unitMissing written)
    else match unit? word with
      | none => .error (.unitUnknown word written)
      | some u =>
        let n := decimal whole * u + (Fraction.read {} fraction).nanos u
        let total := (sum + n) % 0x10000000000000000
        if 0x8000000000000000 < n || 0x8000000000000000 < total then .error (.notDuration written)
        else amounts written fuel total (rest.drop word.length)

/-- A span of time. -/
def duration (t : Text) : Except ValueError Duration := do
  let (negative, body) := signed t
  if body = ("0" : Text) then return .zero
  if body.isEmpty then throw (.notDuration t)
  let n ← amounts t (body.length + 1) 0 body
  if negative then return ⟨Int64.ofInt (-n)⟩
  else if n < 0x8000000000000000 then return ⟨Int64.ofInt n⟩ else throw (.notDuration t)

end AisScript.Command
