import AisScript.Text.Letter
import AisScript.Text.Mark
import AisScript.Text.Unprintable

/-!
# Character classes

Which code points may stand in a name, and which are shown as they are when a text is quoted.
-/

namespace AisScript.Text

/-- Whether a code point lies in one of the ranges. -/
def inRanges (ranges : Array (Nat × Nat)) (code : Nat) : Bool :=
  ranges.any fun (first, last) => first ≤ code && code ≤ last

/-- A letter of any script. -/
def isLetter (code : Nat) : Bool := inRanges letterRanges code

/-- A decimal digit of any script. -/
def isDecimalDigit (code : Nat) : Bool := inRanges digitRanges code

/-- A non-spacing mark. -/
def isMark (code : Nat) : Bool := inRanges markRanges code

/-- A character that stands for itself inside quotes: anything visible, and the plain space. -/
def isPrintable (code : Nat) : Bool := code == 0x20 || !inRanges unprintableRanges code

end AisScript.Text
