import AisScript.Trace.Ring
import Mathlib.Data.List.Rotate

/-!
# The newest events

The slots of a ring stand in a circle that begins with the next one to be written.  An event that is taken in
fills the first slot of the circle, and the circle turns by one: that slot is the last one now.  So the circle
is the end of everything that ever was in it, the empty slots of the beginning in front of all events.  As long
as there are empty slots, they are the ones that a snapshot leaves out.

* `Ring.circle`, `Ring.circle_emit`   the slots from the next one on, and how an event turns them
* `Ring.Holds`                        what a ring looks like behind a number of events
* `Ring.after_recalls`                a snapshot shows the newest events, and the counters agree with it
-/

namespace AisScript.Trace.Ring

variable {r : Ring} {e : Event} {es : List Event}

/-! ## Slots in a circle -/

/-- The slots from the next one to be written on. -/
def circle (r : Ring) : List (Option Event) := r.slots.toList.rotate r.next

/-- Writing the first slot of a circle and turning it by one pushes an element in at the end. -/
private theorem rotate_set {α : Type} {l : List α} {n : Nat} (hn : n < l.length) (x : α) :
    (l.set n x).rotate (n + 1) = (l.rotate n).tail ++ [x] := by
  have hle : n ≤ (l.set n x).length := by
    rw [List.length_set]
    exact Nat.le_of_lt hn
  have hfirst : (l.set n x).rotate n = x :: (l.drop (n + 1) ++ l.take n) := by
    rw [List.rotate_eq_drop_append_take hle, List.drop_set, if_neg (Nat.lt_irrefl n), Nat.sub_self,
      List.take_set_of_le (Nat.le_refl n), List.drop_eq_getElem_cons hn, List.set_cons_zero, List.cons_append]
  have htail : (l.rotate n).tail = l.drop (n + 1) ++ l.take n := by
    rw [List.rotate_eq_drop_append_take (Nat.le_of_lt hn), List.drop_eq_getElem_cons hn, List.cons_append,
      List.tail_cons]
  rw [← List.rotate_rotate, hfirst, List.rotate_cons_succ, List.rotate_zero, htail]

private theorem length_toList_slots (r : Ring) : r.slots.toList.length = r.capacity := Array.length_toList

@[simp] theorem capacity_emit (r : Ring) (e : Event) : (r.emit e).capacity = r.capacity := by
  unfold emit
  split
  · exact Array.size_setIfInBounds
  · rfl

@[simp] theorem level_emit (r : Ring) (e : Event) : (r.emit e).level = r.level := by
  unfold emit
  split <;> rfl

/-- An event that is not let through changes nothing. -/
private theorem emit_of_not_accepts (h : r.level.accepts e = false) : r.emit e = r := by
  rw [emit, h, if_neg Bool.false_ne_true]

/-- An event that is let through goes to the end of the circle and pushes the first slot out. -/
theorem circle_emit (h : r.level.accepts e = true) (hnext : r.next < r.capacity) :
    (r.emit e).circle = r.circle.tail ++ [some e] := by
  have hlen : (r.slots.toList.set r.next (some e)).length = r.capacity := by
    rw [List.length_set, length_toList_slots]
  rw [emit, if_pos h]
  simp only [circle, Array.toList_setIfInBounds]
  rw [← hlen, List.rotate_mod]
  exact rotate_set (by rw [length_toList_slots]; exact hnext) (some e)

/-! ## A ring behind some events -/

/-- What a ring looks like behind events that it took in: where it writes next, how many it counted, and the
circle, from which as many slots were pushed out as there are events. -/
structure Holds (r : Ring) (es : List Event) : Prop where
  positive : 0 < r.capacity
  next : r.next = es.length % r.capacity
  total : r.total.toNat = es.length
  circle : r.circle = (List.replicate r.capacity none ++ es.map some).drop es.length

/-- The number of slots for a given capacity. -/
def slotCount (capacity : Int) : Nat := if 0 < capacity then capacity.toNat else defaultCapacity

private theorem capacity_new (capacity : Int) (level : Level) :
    (new capacity level).capacity = slotCount capacity :=
  Array.size_replicate

/-- There is at least one slot. -/
private theorem slotCount_pos (capacity : Int) : 0 < slotCount capacity := by
  unfold slotCount
  split
  · omega
  · decide

/-- A new ring has no events. -/
theorem Holds.new (capacity : Int) (level : Level) : (Ring.new capacity level).Holds [] where
  positive := by
    rw [capacity_new]
    exact slotCount_pos capacity
  next := (Nat.zero_mod _).symm
  total := rfl
  circle := by
    rw [capacity_new, List.length_nil, List.drop_zero, List.map_nil, List.append_nil]
    exact (List.rotate_zero _).trans Array.toList_replicate

/-- One more event, as long as their number is a 64-bit word. -/
theorem Holds.emit (h : r.Holds es) (hfew : es.length + 1 < UInt64.size) (he : r.level.accepts e = true) :
    (r.emit e).Holds (es ++ [e]) := by
  -- The next slot is one of the slots.
  have hnext : r.next < r.capacity := by
    rw [h.next]
    exact Nat.mod_lt _ h.positive
  have hlen : (es ++ [e]).length = es.length + 1 := List.length_append
  refine ⟨by rw [capacity_emit]; exact h.positive, ?_, ?_, ?_⟩
  -- The next slot is counted around the ring.
  · rw [capacity_emit, hlen, Ring.emit, if_pos he]
    simp only [h.next, Nat.mod_add_mod]
  -- The number of events does not wrap.
  · rw [hlen, Ring.emit, if_pos he]
    simp only [UInt64.toNat_add, h.total, UInt64.toNat_one]
    exact Nat.mod_eq_of_lt hfew
  · -- The list that the circle is cut from is longer than what is cut off.
    have hle : es.length + 1 ≤ (List.replicate r.capacity none ++ es.map some).length := by
      have hpos := h.positive
      simp only [List.length_append, List.length_replicate, List.length_map]
      omega
    rw [circle_emit he hnext, h.circle, List.tail_drop, capacity_emit, hlen, List.map_append,
      ← List.append_assoc, List.drop_append_of_le_length hle]
    rfl

/-- The events of a run that a level lets through; signs of life always pass. -/
def accepted (level : Level) (events : List Event) : List Event :=
  events.filter fun e => level.emits e.scope || e.kind = .heartbeat

private theorem accepted_cons (level : Level) (e : Event) (events : List Event) :
    accepted level (e :: events) =
      if level.accepts e then e :: accepted level events else accepted level events :=
  List.filter_cons

/-- A new ring behind a run of events. -/
def after (capacity : Int) (level : Level) (events : List Event) : Ring :=
  events.foldl Ring.emit (Ring.new capacity level)

/-- A ring holds what it was offered and let through. -/
theorem Holds.foldl (h : r.Holds es) (events : List Event)
    (hfew : es.length + events.length < UInt64.size) :
    (events.foldl Ring.emit r).Holds (es ++ accepted r.level events) := by
  -- By induction on the events that are offered.
  induction events generalizing r es with
  | nil =>
    rw [accepted, List.filter_nil, List.append_nil]
    exact h
  | cons e events ih =>
    rw [List.length_cons] at hfew
    rw [List.foldl_cons, accepted_cons]
    -- The event is let through, so it is held from now on.
    cases he : r.level.accepts e with
    | true =>
      have hrest := ih (h.emit (by omega) he) (by rw [List.length_append, List.length_singleton]; omega)
      rwa [level_emit, List.append_assoc] at hrest
    -- The event is not let through, so nothing changes.
    | false =>
      rw [emit_of_not_accepts he]
      exact ih h (by omega)

private theorem capacity_foldl (r : Ring) (events : List Event) :
    (events.foldl Ring.emit r).capacity = r.capacity := by
  induction events generalizing r with
  | nil => rfl
  | cons e events ih => exact (ih (r.emit e)).trans (capacity_emit r e)

/-! ## Snapshots -/

/-- What is left of a circle: its empty slots, and the newest events. -/
private theorem Holds.circle_eq (h : r.Holds es) :
    r.circle = List.replicate (r.capacity - es.length) none ++ (es.drop (es.length - r.capacity)).map some := by
  rw [h.circle, List.drop_append, List.drop_replicate, List.length_replicate, List.map_drop]

/-- Empty slots are not shown, and events are. -/
private theorem filterMap_replicate_append (n : Nat) (es : List Event) :
    (List.replicate n none ++ es.map some).filterMap id = es := by
  rw [List.filterMap_append, List.filterMap_replicate_of_none rfl, List.nil_append, List.filterMap_map]
  exact List.filterMap_some

/-- A snapshot shows the newest events. -/
private theorem Holds.snapshot_eq (h : r.Holds es) : r.snapshot = es.drop (es.length - r.capacity) := by
  have hcircle := h.circle_eq
  have hlt : r.next < r.capacity := by
    rw [h.next]
    exact Nat.mod_lt _ h.positive
  have hle : r.next ≤ r.slots.toList.length := by
    rw [length_toList_slots]
    exact Nat.le_of_lt hlt
  -- The slots begin in the middle of the circle, at the next one.
  rw [Ring.circle, List.rotate_eq_drop_append_take hle] at hcircle
  rw [snapshot, held, h.total]
  by_cases hfull : r.capacity ≤ es.length
  · -- All slots hold events.
    rw [if_pos (Nat.min_eq_right hfull), hcircle, filterMap_replicate_append]
  · -- The empty slots are those from the next one on, and the events begin with the first slot.
    have hlt := Nat.lt_of_not_le hfull
    have hempty : r.slots.toList.drop r.next = List.replicate (r.capacity - es.length) none := by
      refine (List.append_inj hcircle ?_).1
      rw [List.length_drop, length_toList_slots, h.next, Nat.mod_eq_of_lt hlt, List.length_replicate]
    rw [hempty, List.append_cancel_left_eq] at hcircle
    rw [if_neg (by omega), hcircle]
    exact filterMap_replicate_append 0 _

/-- What a ring with a number of slots shows of the events it took in: its snapshot are the newest of them,
oldest first, and its counters tell how many these are and how many there were before. -/
structure Recalls (r : Ring) (slots : Nat) (taken : List Event) : Prop where
  newest : r.snapshot = taken.drop (taken.length - slots)
  count : r.snapshot.length = min taken.length slots
  held : r.held = r.snapshot.length
  dropped : r.dropped = taken.length - r.held

private theorem Holds.recalls (h : r.Holds es) : r.Recalls r.capacity es where
  newest := h.snapshot_eq
  count := by
    rw [h.snapshot_eq, List.length_drop]
    omega
  held := by
    rw [h.snapshot_eq, List.length_drop, Ring.held, h.total]
    omega
  dropped := by rw [Ring.dropped, h.total]

/-- Whatever capacity and level a ring has, at every point of a run of fewer than `2 ^ 64` events it shows the
newest of those that were let through, as many as it has slots. -/
theorem after_recalls (capacity : Int) (level : Level) {events front : List Event}
    (hfew : events.length < UInt64.size) (hfront : front <+: events) :
    (after capacity level front).Recalls (slotCount capacity) (accepted level front) := by
  have hlen := hfront.length_le
  have hholds := (Holds.new capacity level).foldl front (by rw [List.length_nil]; omega)
  have hcapacity : (after capacity level front).capacity = slotCount capacity :=
    (capacity_foldl _ front).trans (capacity_new capacity level)
  rw [← hcapacity]
  exact hholds.recalls

/-- A command, a pass and a sign of life inside it, and two units. -/
def mixedRun : List Event :=
  [{ kind := .opening, scope := .driver, name := "compile" }, { kind := .opening, scope := .pass, name := "emit" },
    { kind := .heartbeat, scope := .call, name := "alive" }, { kind := .point, scope := .unit, name := "a" },
    { kind := .point, scope := .unit, name := "b" }]

/-- Of the four that are let through a ring with three slots has dropped the command. -/
theorem mixedRun_recalled :
    mixedRun.length < UInt64.size ∧ mixedRun <+: mixedRun
      ∧ (accepted .phase mixedRun).map (·.name) = ["compile", "alive", "a", "b"] ∧ slotCount 3 = 3
      ∧ (after 3 .phase mixedRun).Recalls (slotCount 3) (accepted .phase mixedRun) := by
  have hfew : mixedRun.length < UInt64.size := by decide
  exact ⟨hfew, List.prefix_rfl, by decide, rfl, after_recalls 3 .phase hfew List.prefix_rfl⟩

end AisScript.Trace.Ring
