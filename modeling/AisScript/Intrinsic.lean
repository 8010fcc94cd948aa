import AisScript.Ty

/-!
# Intrinsics

The operations of the host that a script can call.  The set is closed: each one checks the types of
its own arguments and writes itself from its generated arguments.

* `Intrinsic.check`   the result type for given argument types, or what is wrong with them
* `Intrinsic.emit?`   the generated call
-/

namespace AisScript

/-- An operation of the host. -/
inductive Intrinsic where
  | abs | acos | asin | atan2 | cos | distSq | float | hdistSq | int | log | max | min | object
  | rad2rot | rot2rad | say | sayConfigVar | setSayTarget | sin | sqrt | tan | vdistSq
deriving DecidableEq, Repr

/-- What is wrong with the arguments of an intrinsic. -/
structure ArgError where
  name : Text
  message : Text
deriving DecidableEq, Repr

/-- The words of the error, with the intrinsic's name in front. -/
def ArgError.render (e : ArgError) : Text := e.name ++ ": " ++ e.message

/-- What an intrinsic accepts and how it is written. -/
inductive Signature where
  /-- Prints one or more values. -/
  | print
  /-- Takes one string and produces nothing. -/
  | sink (op : Text)
  /-- Takes one number. -/
  | unary (op : Text) (result : Ty)
  /-- Turns an integer into an object. -/
  | toObject
  /-- Takes two numbers. -/
  | binary (op : Text) (result : ResultRule)
  /-- Takes two numbers and produces a float. -/
  | binaryFloat (op : Text)
  /-- Measures between two objects. -/
  | objects (op : Text)
deriving DecidableEq, Repr

namespace Intrinsic

/-- Every intrinsic, by name in byte order. -/
def all : List Intrinsic :=
  [.abs, .acos, .asin, .atan2, .cos, .distSq, .float, .hdistSq, .int, .log, .max, .min, .object,
    .rad2rot, .rot2rad, .say, .sayConfigVar, .setSayTarget, .sin, .sqrt, .tan, .vdistSq]

/-- The name a script calls it by. -/
def name : Intrinsic → Text
  | .abs => "abs" | .acos => "acos" | .asin => "asin" | .atan2 => "atan2" | .cos => "cos"
  | .distSq => "dist_sq" | .float => "float" | .hdistSq => "hdist_sq" | .int => "int"
  | .log => "log" | .max => "max" | .min => "min" | .object => "object" | .rad2rot => "rad2rot"
  | .rot2rad => "rot2rad" | .say => "say" | .sayConfigVar => "say_config_var"
  | .setSayTarget => "set_say_target" | .sin => "sin" | .sqrt => "sqrt" | .tan => "tan"
  | .vdistSq => "vdist_sq"

/-- The intrinsic with a given name. -/
def ofName? (t : Text) : Option Intrinsic := all.find? (·.name == t)

/-- What it accepts and how it is written. -/
def signature : Intrinsic → Signature
  | .say => .print
  | .setSayTarget => .sink "say_to_var"
  | .sayConfigVar => .sink "say_from_config"
  | .sqrt => .unary "|/" .float
  | .int => .unary "trunc" .int
  | .float => .unary "to_float" .float
  | .abs => .unary "abs" .float
  | .sin => .unary "sin" .float
  | .cos => .unary "cos" .float
  | .tan => .unary "tan" .float
  | .log => .unary "log" .float
  | .asin => .unary "asin" .float
  | .acos => .unary "acos" .float
  | .rad2rot => .unary "radtorot" .int
  | .rot2rad => .unary "rottorad" .float
  | .object => .toObject
  | .atan2 => .binaryFloat " atan2 "
  | .max => .binary "|>" .arithmetic
  | .min => .binary "<|" .arithmetic
  | .distSq => .objects "<=>"
  | .hdistSq => .objects "<_>"
  | .vdistSq => .objects "<^>"

/-- The complaint about a wrong number of arguments. -/
def arityMessage (want got : Nat) : Text :=
  "expected " ++ Text.ofNat want ++ " arguments, got " ++ Text.ofNat got

/-- The first argument, counted from `index`, that is no value. -/
def firstNonValue (index : Nat) : List Ty → Option (Nat × Ty)
  | [] => none
  | t :: ts => if t.isValue then firstNonValue (index + 1) ts else some (index, t)

/-- The result type of a call, or the message of what is wrong. -/
def resultOf : Signature → List Ty → Except Text Ty
  | .print, [] => .error "expected at least one argument"
  | .print, ts => match firstNonValue 1 ts with
    | some (i, t) => .error ("argument " ++ Text.ofNat i ++ " has type " ++ t.render)
    | none => .ok .void
  | .sink _, [t] =>
    if t = .string then .ok .void else .error ("expected string argument, got " ++ t.render)
  | .unary _ result, [t] =>
    if t.isNumeric then .ok result else .error ("expected numeric argument, got " ++ t.render)
  | .toObject, [t] =>
    if t = .int then .ok .object else .error ("expected int argument, got " ++ t.render)
  | .binary _ rule, [a, b] =>
    if a.isNumeric && b.isNumeric then .ok (rule.apply a b)
    else .error ("expected numeric arguments, got " ++ a.render ++ " and " ++ b.render)
  | .binaryFloat _, [a, b] =>
    if a.isNumeric && b.isNumeric then .ok .float
    else .error ("expected numeric arguments, got " ++ a.render ++ " and " ++ b.render)
  | .objects _, [a, b] =>
    if a = .object ∧ b = .object then .ok .float
    else .error ("expected object arguments, got " ++ a.render ++ " and " ++ b.render)
  | .sink _, ts | .unary _ _, ts | .toObject, ts => .error (arityMessage 1 ts.length)
  | .binary _ _, ts | .binaryFloat _, ts | .objects _, ts => .error (arityMessage 2 ts.length)

/-- The result type of a call with arguments of the given types; `void` when it produces nothing. -/
def check (i : Intrinsic) (args : List Ty) : Except ArgError Ty :=
  match resultOf i.signature args with
  | .ok t => .ok t
  | .error message => .error ⟨i.name, message⟩

/-- A prefix operator and its operand: a word needs a blank in between. -/
def applied (op arg : Text) : Text :=
  let blank : Text := match op.getLast? with
    | some b => if 0x61 ≤ b && b ≤ 0x7A then " " else ""
    | none => ""
  "(" ++ op ++ blank ++ arg ++ ")"

/-- The generated call from its generated arguments, if there are enough of them. -/
def emit? (i : Intrinsic) (args : List Text) : Option Text :=
  match i.signature, args with
  | .print, args => some ("say " ++ Text.join ", " args)
  | .sink op, a :: _ => some ("(" ++ op ++ " " ++ a ++ ")")
  | .unary op _, a :: _ => some (applied op a)
  | .toObject, a :: _ => some ("(to_object " ++ a ++ ")")
  | .binary op _, a :: b :: _ | .binaryFloat op, a :: b :: _ | .objects op, a :: b :: _ =>
    some ("(" ++ a ++ op ++ b ++ ")")
  | _, _ => none

end Intrinsic

end AisScript
