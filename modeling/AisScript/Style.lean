import AisScript.Text

/-!
# Coloured text

Text for a terminal carries escape sequences that switch inks on in front of it and off behind it.
-/

namespace AisScript

/-- Something a terminal can do to a text. -/
inductive Ink where
  | bold | faint | red | green | yellow | blue | cyan
deriving DecidableEq, Repr

namespace Ink

/-- The number that switches an ink on. -/
def on : Ink → Nat
  | bold => 1
  | faint => 2
  | red => 31
  | green => 32
  | yellow => 33
  | blue => 34
  | cyan => 36

/-- The number that switches an ink off again; colours fall back to the plain state. -/
def off : Ink → Nat
  | bold | faint => 22
  | _ => 0

end Ink

/-- A text between two escape sequences, or as it is where colours are not wanted. -/
def Text.painted (t : Text) (colored : Bool) (inks : List Ink) : Text :=
  if colored then sequence (inks.map Ink.on) ++ t ++ sequence (inks.map Ink.off) else t
where
  /-- The escape sequence with the given numbers. -/
  sequence (numbers : List Nat) : Text :=
    "\x1b[" ++ Text.join ";" (numbers.map Text.ofNat) ++ "m"

end AisScript
