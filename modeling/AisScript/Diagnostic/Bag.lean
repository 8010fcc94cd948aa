import AisScript.Diagnostic

/-!
# Bags of diagnostics

A bag keeps the first diagnostics offered to it, up to its capacity.  An error that no longer fits
is not kept, but the bag remembers that there was one.

* `Bag.add`, `Bag.merge`, `Bag.sort`   filling a bag
* `Bag.hasErrors`                      whether a halting diagnostic was ever offered
* `Reporter`                           a bag behind a filter for repeated reports
-/

namespace AisScript

/-- Diagnostics in order of arrival, at most `capacity` of them. -/
structure Bag where
  items : List Diagnostic := []
  capacity : Nat
  /-- A halting diagnostic was turned away. -/
  overflowed : Bool := false
deriving DecidableEq, Repr

namespace Bag

/-- The largest capacity a bag can have. -/
def ceiling : Nat := 65535

/-- An empty bag.  A limit that is not positive or lies beyond the ceiling means the ceiling. -/
def new (limit : Int) : Bag :=
  { capacity := if 0 < limit ∧ limit ≤ ceiling then limit.toNat else ceiling }

/-- Whether there is room for one more. -/
def hasRoom (b : Bag) : Bool := b.items.length < b.capacity

/-- Offers a diagnostic. -/
def add (b : Bag) (d : Diagnostic) : Bag :=
  if b.hasRoom then { b with items := b.items ++ [d] }
  else { b with overflowed := b.overflowed || d.severity.halts }

/-- Offers several diagnostics in order. -/
def addAll (b : Bag) (ds : List Diagnostic) : Bag := ds.foldl add b

/-- Whether some halting diagnostic was offered. -/
def hasErrors (b : Bag) : Bool := b.overflowed || b.items.any (·.severity.halts)

/-- Offers everything another bag holds; the capacity grows to make room, up to the ceiling. -/
def merge (b other : Bag) : Bag :=
  let total := b.items.length + other.items.length
  let grown := if b.capacity < total then { b with capacity := min total ceiling } else b
  let filled := grown.addAll other.items
  { filled with overflowed := filled.overflowed || other.overflowed }

/-- The order of reports: by place, then the graver first, then by code. -/
def before (d e : Diagnostic) : Bool :=
  if d.span.file ≠ e.span.file then d.span.file < e.span.file
  else if d.span.start ≠ e.span.start then d.span.start < e.span.start
  else if d.span.stop ≠ e.span.stop then d.span.stop < e.span.stop
  else if d.severity ≠ e.severity then e.severity.rank < d.severity.rank
  else d.code.number < e.code.number

/-- Sorts the kept diagnostics; equal ones keep their order. -/
def sort (b : Bag) : Bag := { b with items := b.items.mergeSort fun d e => !before e d }

end Bag

/-- What makes two reports the same one: cause, place and words. -/
structure ReportKey where
  code : Code
  file : Nat
  start : Nat
  message : Text
deriving DecidableEq, Repr

/-- The key of a diagnostic. -/
def Diagnostic.key (d : Diagnostic) : ReportKey := ⟨d.code, d.span.file, d.span.start, d.message⟩

/-- A bag that is offered each report only once. -/
structure Reporter where
  bag : Bag
  seen : List ReportKey := []
deriving DecidableEq, Repr

namespace Reporter

/-- Passes a diagnostic on to the bag unless the same report was made before. -/
def report (r : Reporter) (d : Diagnostic) : Reporter :=
  if r.seen.contains d.key then r else { bag := r.bag.add d, seen := d.key :: r.seen }

/-- Reports several diagnostics in order. -/
def reportAll (r : Reporter) (ds : List Diagnostic) : Reporter := ds.foldl report r

end Reporter

end AisScript
