import AisScript.Source.Span

/-!
# Enumerations

An enumeration names integer constants in increasing order.  A member without a value continues
from its predecessor, the first one from zero; a member with a value must exceed its predecessor.
Values are 64-bit integers of the target, so counting past the largest one wraps around.
-/

namespace AisScript

/-- The decimal numeral of a 64-bit integer. -/
def Text.ofInt64 (v : Int64) : Text := Text.ofInt v.toInt

/-- A member as written: its name, and its value if one was given. -/
structure EnumSpec where
  name : Text
  value : Option Int64 := none
deriving DecidableEq, Repr

/-- A member with its value. -/
structure EnumMember where
  name : Text
  value : Int64
deriving DecidableEq, Repr

/-- An enumeration as defined at one place of the source. -/
structure Enumeration where
  name : Text
  members : List EnumMember := []
  site : Span := {}
deriving DecidableEq, Repr

/-- A given value that does not exceed the one before it. -/
structure OrderError where
  member : Text
  value : Int64
  counter : Int64
deriving DecidableEq, Repr

/-- The words of the error. -/
def OrderError.message (e : OrderError) : Text :=
  "enum member " ++ e.member ++ " = " ++ Text.ofInt64 e.value ++ " must be greater than "
    ++ Text.ofInt64 e.counter

namespace Enumeration

/-- What stands in for an enumeration that nothing defines. -/
def undefined : Enumeration := { name := [] }

/-- The values of the members after one with value `counter`, up to the first that breaks the
order. -/
def valuesFrom (counter : Int64) : List EnumSpec → List EnumMember × Option OrderError
  | [] => ([], none)
  | s :: rest =>
    match s.value with
    | none =>
      let (ms, e) := valuesFrom (counter + 1) rest
      (⟨s.name, counter + 1⟩ :: ms, e)
    | some v =>
      if v ≤ counter then ([], some ⟨s.name, v, counter⟩)
      else
        let (ms, e) := valuesFrom v rest
        (⟨s.name, v⟩ :: ms, e)

/-- The enumeration of the given members.  On an error the members before the offending one are
kept. -/
def build (name : Text) (site : Span) (specs : List EnumSpec) : Enumeration × Option OrderError :=
  let (members, e) := valuesFrom (-1) specs
  ({ name, members, site }, e)

/-- The value of the first member with a given name. -/
def value? (e : Enumeration) (name : Text) : Option Int64 :=
  (e.members.find? (·.name == name)).map (·.value)

end Enumeration

end AisScript
