import AisScript.Text

/-!
# Durations

A span of time is a number of nanoseconds.  It is written in the largest units that fit: hours,
minutes and seconds from one second on, and below that the one unit that leaves a whole part, with
no trailing zeros behind the point.
-/

namespace AisScript

/-- A number of nanoseconds. -/
structure Duration where
  nanos : Int64
deriving DecidableEq, Repr, Inhabited

namespace Duration

/-- No time at all. -/
def zero : Duration := ⟨0⟩

instance : Add Duration := ⟨fun a b => ⟨a.nanos + b.nanos⟩⟩

/-- Rounds to whole microseconds, a half away from zero. -/
def toMicros (d : Duration) : Duration :=
  let n := d.nanos.toInt
  let size := n.natAbs
  let rounded : Int := if 2 * (size % 1000) < 1000 then size - size % 1000 else size - size % 1000 + 1000
  let signed := if n < 0 then -rounded else rounded
  ⟨Int64.ofInt (max (-(0x8000000000000000)) (min signed (0x8000000000000000 - 1)))⟩

/-- A number divided by a power of ten, without trailing zeros. -/
def fraction (digits n : Nat) : Text :=
  let whole := n / Nat.pow 10 digits
  let tail := ((Text.padded digits 10 (n % Nat.pow 10 digits)).reverse.dropWhile (· = 0x30)).reverse
  Text.ofNat whole ++ (if tail.isEmpty then [] else 0x2E :: tail)

/-- The written form. -/
def render (d : Duration) : Text :=
  let n := d.nanos.toInt
  let size := n.natAbs
  let body : Text :=
    if size = 0 then "0s"
    else if size < 1000 then Text.ofNat size ++ "ns"
    else if size < 1000000 then fraction 3 size ++ "µs"
    else if size < 1000000000 then fraction 6 size ++ "ms"
    else
      let minutes := size / 60000000000
      let seconds := fraction 9 (size % 60000000000) ++ "s"
      if minutes = 0 then seconds
      else if minutes < 60 then Text.ofNat minutes ++ "m" ++ seconds
      else Text.ofNat (minutes / 60) ++ "h" ++ Text.ofNat (minutes % 60) ++ "m" ++ seconds
  if n < 0 then 0x2D :: body else body

/-- Milliseconds with a number of places behind the point, rounded to nearest. -/
def millis (places : Nat) (d : Duration) : Text :=
  let n := d.nanos.toInt
  let unit := 1000000 / Nat.pow 10 places
  let scaled := (n.natAbs + unit / 2) / unit
  ((if n < 0 then [0x2D] else []) : Text) ++ Text.ofNat (scaled / Nat.pow 10 places) ++ "."
    ++ Text.padded places 10 (scaled % Nat.pow 10 places)

end Duration

end AisScript
