import AisScript.Source.Span
import AisScript.Text.Quoted

/-!
# Bitfields

A bitfield names ranges of bits of one integer.  The ranges lie one behind the other in the order of
declaration, from bit zero on, and must end within the largest integer of the target.  Offsets are counted in
64-bit integers of the target.

* `Bitfield.limits`   offset and length of a member
* `Bitfield.width`    the number of bits of all members together
-/

namespace AisScript

/-- A named range of bits. -/
structure BitfieldMember where
  name : Text
  length : Nat
deriving DecidableEq, Repr

/-- A bitfield as defined at one place of the source.  The place makes two definitions different
even when they look the same. -/
structure Bitfield where
  name : Text
  members : List BitfieldMember := []
  site : Span := {}
deriving DecidableEq, Repr

/-- Why a member has no range. -/
inductive BitfieldError where
  /-- There is no such member. -/
  | missing (bitfield member : Text)
  /-- The range of a member ends beyond the largest integer. -/
  | tooWide (bitfield member : Text)
deriving DecidableEq, Repr

/-- The words of the error. -/
def BitfieldError.message : BitfieldError → Text
  | .missing b m => "bitfield " ++ b ++ " has no member " ++ Text.quote m
  | .tooWide b m => b ++ "." ++ m ++ ": bitfield is wider than an AIS integer"

namespace Bitfield

/-- What stands in for a bitfield that nothing defines. -/
def undefined : Bitfield := { name := [] }

/-- The largest integer of the target, which no range may pass. -/
def lastBit : Nat := 0x8000000000000000 - 1

/-- The length of a member that begins at bit `offset`, as an integer of the target; nothing if the
length or the end of its range is none. -/
def extent? (offset : Int64) (length : Nat) : Option Int64 :=
  if lastBit < length then none
  else if Int64.maxValue - Int64.ofNat length < offset then none
  else some (Int64.ofNat length)

/-- Finds a member in the members from offset `offset` on.  Ranges are checked on the way, so one
that is too wide in front of the member wins. -/
def limitsFrom (bitfield member : Text) (offset : Int64) :
    List BitfieldMember → Except BitfieldError (Nat × Nat)
  | [] => .error (.missing bitfield member)
  | m :: ms =>
    match extent? offset m.length with
    | none => .error (.tooWide bitfield m.name)
    | some n =>
      if m.name = member then .ok (offset.toUInt64.toNat, m.length)
      else limitsFrom bitfield member (offset + n) ms

/-- The offset and length of a member; the offset is the sum of all lengths before it. -/
def limits (b : Bitfield) (member : Text) : Except BitfieldError (Nat × Nat) :=
  limitsFrom b.name member 0 b.members

/-- The number of bits from bit zero to the end of the last member. -/
def widthFrom (bitfield : Text) (offset : Int64) : List BitfieldMember → Except BitfieldError Nat
  | [] => .ok offset.toUInt64.toNat
  | m :: ms =>
    match extent? offset m.length with
    | none => .error (.tooWide bitfield m.name)
    | some n => widthFrom bitfield (offset + n) ms

/-- The number of bits of all members together. -/
def width (b : Bitfield) : Except BitfieldError Nat := widthFrom b.name 0 b.members

end Bitfield

end AisScript
