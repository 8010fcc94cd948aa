import AisScript.Ty.Bitfield
import AisScript.Ty.Enumeration

/-!
# Types

The types of values and of the few other things a name can stand for.  Bitfield and enumeration
types are nominal: they are equal only when they come from the same definition.

* `Ty.assignable`       which values a variable of a type accepts
* `Ty.storageName?`     how a variable of a type is declared in the generated code
* `Ty.arithmetic`       the common type of two numbers
-/

namespace AisScript

/-- The type of an expression. -/
inductive Ty where
  | invalid
  | int
  | float
  | string
  | object
  | bitfield (layout : Bitfield)
  /-- The type of an enumeration's own name; its members are plain integers. -/
  | enum (definition : Enumeration)
  /-- The mark of a call that produces nothing. -/
  | void
  /-- A number that stands for no type. -/
  | reserved (number : Nat)
deriving DecidableEq, Repr

/-- The broad categories of types that operators accept. -/
inductive Family where
  | int | float | string | object | bitfield | enum
deriving DecidableEq, Repr

namespace Family

/-- Every family. -/
def all : List Family := [.int, .float, .string, .object, .bitfield, .enum]

/-- The families of numbers. -/
def numeric : List Family := [.int, .float]

/-- The families of bit patterns. -/
def bits : List Family := [.int, .bitfield]

/-- The bit that stands for a family in a mask. -/
def mask : Family → Nat
  | .int => 2 | .float => 4 | .string => 8 | .object => 16 | .bitfield => 32 | .enum => 64

end Family

namespace Ty

/-- The type with a given number; a bitfield or enumeration so named has no definition. -/
def ofNumber : Nat → Ty
  | 0 => .invalid
  | 1 => .int
  | 2 => .float
  | 3 => .string
  | 4 => .object
  | 5 => .bitfield .undefined
  | 6 => .enum .undefined
  | 7 => .void
  | n => .reserved n

/-- How a type is written in messages: with its name, where something defines it. -/
def render : Ty → Text
  | .invalid => "invalid"
  | .int => "int"
  | .float => "float"
  | .string => "string"
  | .object => "object"
  | .bitfield b => if b = .undefined then "bitfield" else "bitfield " ++ b.name
  | .enum e => if e = .undefined then "enum" else "enum " ++ e.name
  | .void => "void"
  | .reserved n => "Kind(" ++ Text.ofNat n ++ ")"

/-- An integer or a float. -/
def isNumeric : Ty → Bool
  | .int | .float => true
  | _ => false

/-- A type whose values may be stored and printed. -/
def isValue : Ty → Bool
  | .int | .float | .string | .object | .bitfield _ => true
  | _ => false

/-- The family of a type, if operators know it. -/
def family? : Ty → Option Family
  | .int => some .int
  | .float => some .float
  | .string => some .string
  | .object => some .object
  | .bitfield _ => some .bitfield
  | .enum _ => some .enum
  | _ => none

/-- Whether a type belongs to one of the families. -/
def within (t : Ty) (families : List Family) : Bool :=
  match t.family? with
  | some f => families.contains f
  | none => false

/-- The common type of two numbers: integer if both are, float otherwise. -/
def arithmetic (a b : Ty) : Ty := if a = .int ∧ b = .int then .int else .float

/-- Whether a variable of type `dst` accepts a value of type `src`: numbers accept numbers, integers
and bitfields accept each other, and otherwise only the same type fits. -/
def assignable (dst src : Ty) : Bool :=
  match dst, src with
  | .int, .int | .int, .float | .float, .int | .float, .float => true
  | .bitfield _, .int | .int, .bitfield _ => true
  | .bitfield a, .bitfield b => a = b
  | .object, .object | .string, .string => true
  | _, _ => false

/-- The word that declares a variable of this type in the generated code; bitfields are plain
integers there. -/
def storageName? : Ty → Option Text
  | .int | .bitfield _ => some "int"
  | .float => some "float"
  | .object => some "object"
  | _ => none

end Ty

/-- How the result type of an operator follows from its operands. -/
inductive ResultRule where
  | unknown
  /-- The common arithmetic type. -/
  | arithmetic
  /-- Always an integer: truth values and bit patterns. -/
  | int
deriving DecidableEq, Repr

/-- The result type for two operands. -/
def ResultRule.apply : ResultRule → Ty → Ty → Ty
  | .unknown, _, _ => .invalid
  | .arithmetic, a, b => .arithmetic a b
  | .int, _, _ => .int

end AisScript
