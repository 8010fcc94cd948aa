import AisScript.Trace.Event

/-!
# The ring of recent events

A ring keeps the latest events in a fixed number of slots, so that after a failure one can see what
was done last.  A full ring overwrites its oldest event.

* `Ring.emit`       puts an event into the next slot
* `Ring.snapshot`   the events held, oldest first
* `Ring.dump`       the snapshot as text
-/

namespace AisScript.Trace

/-- The latest events. -/
structure Ring where
  slots : Array (Option Event)
  /-- The slot that is written next. -/
  next : Nat := 0
  /-- The number of events taken in so far, as a 64-bit word. -/
  total : UInt64 := 0
  level : Level
deriving Repr, Inhabited

namespace Ring

/-- The number of slots where none is given. -/
def defaultCapacity : Nat := 4096

/-- An empty ring.  A capacity that is not positive means the default one. -/
def new (capacity : Int) (level : Level) : Ring :=
  { slots := Array.replicate (if 0 < capacity then capacity.toNat else defaultCapacity) none, level }

/-- The number of slots. -/
def capacity (r : Ring) : Nat := r.slots.size

/-- Takes an event in, if the level lets it through. -/
def emit (r : Ring) (e : Event) : Ring :=
  if r.level.accepts e then
    { r with
      slots := r.slots.setIfInBounds r.next (some e)
      next := (r.next + 1) % r.capacity
      total := r.total + 1 }
  else r

/-- The number of events held. -/
def held (r : Ring) : Nat := min r.total.toNat r.capacity

/-- The number of events overwritten. -/
def dropped (r : Ring) : Nat := r.total.toNat - r.held

/-- The events held, oldest first. -/
def snapshot (r : Ring) : List Event :=
  let slots := r.slots.toList
  let recent := slots.take r.next
  ((if r.held = r.capacity then slots.drop r.next ++ recent else recent)).filterMap id

/-- The events held as text.  In front of lines for a reader stands how many there are. -/
def dump (r : Ring) (f : Format) : Text :=
  let events := r.snapshot
  let lost : Text := if r.dropped = 0 then [] else " (" ++ Text.ofNat r.dropped ++ " earlier dropped)"
  let header : Text :=
    if f = .json then [] else "--- last " ++ Text.ofNat events.length ++ " trace events" ++ lost ++ " ---\n"
  header ++ events.flatMap fun e => e.render f

end Ring

end AisScript.Trace
