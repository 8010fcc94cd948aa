import AisScript.Text.Utf8
import AisScript.Text.Duration
import AisScript.Text.Json

/-!
# Stopwatches

A stopwatch collects the laps of one unit in the order in which they were started.  A lap carries
the quantities its pass reported: files required, temporaries allocated, bytes emitted.

* `Stopwatch.start`, `adjust?`         running laps
* `Lap.count`, `Lap.stop`              changes of a lap
* `Stopwatch.summary`                  an aligned table
* `Stopwatch.lapJson`                  a lap for a program
-/

namespace AisScript

/-- One pass: its name, how long it took and what it counted. -/
structure Lap where
  name : Text
  elapsed : Duration := .zero
  /-- Named quantities, in the order in which their names first came up. -/
  counts : List (Text × Int) := []
  stopped : Bool := false
deriving DecidableEq, Repr

/-- Sets a quantity; a name that came up before keeps its place. -/
def Lap.count (l : Lap) (key : Text) (n : Int) : Lap :=
  if l.counts.any (·.1 == key) then
    { l with counts := l.counts.map fun c => if c.1 == key then (key, n) else c }
  else { l with counts := l.counts ++ [(key, n)] }

/-- Ends a lap; a lap that was ended before keeps its first duration. -/
def Lap.stop (l : Lap) (elapsed : Duration) : Lap :=
  if l.stopped then l else { l with elapsed, stopped := true }

/-- The laps of one unit. -/
structure Stopwatch where
  laps : List Lap := []
deriving DecidableEq, Repr

namespace Stopwatch

/-- Starts a lap behind the others. -/
def start (w : Stopwatch) (name : Text) : Stopwatch := ⟨w.laps ++ [{ name := name }]⟩

/-- Changes the lap with a given number.  No lap that was not started can be changed. -/
def adjust? (w : Stopwatch) (lap : Int) (f : Lap → Lap) : Option Stopwatch :=
  if 0 ≤ lap ∧ lap < w.laps.length then some ⟨w.laps.modify lap.toNat f⟩ else none

/-- The time of all laps together. -/
def total (w : Stopwatch) : Duration := w.laps.foldl (fun d l => d + l.elapsed) .zero

/-- An aligned table of the laps. -/
def summary (w : Stopwatch) : Text :=
  let row (name : Text) (d : Duration) : Text :=
    "  " ++ name.flushLeft 10 ++ " " ++ (d.millis 2).flushRight 7 ++ " ms"
  let counted (c : Text × Int) : Text := "  " ++ c.1 ++ "=" ++ Text.ofInt c.2
  let lap (l : Lap) : Text := row l.name l.elapsed ++ l.counts.flatMap counted ++ "\n"
  "timings:\n" ++ w.laps.flatMap lap ++ row "total" w.total ++ "\n"

/-- A lap for a program, its time in whole milliseconds. -/
def lapJson (l : Lap) : Json :=
  .record ([Json.member "name" (.text l.name), Json.member "duration_ms" (.number (l.elapsed.nanos.toInt / 1000000))]
    ++ if l.counts.isEmpty then [] else
      [Json.member "counts" (.list (l.counts.map fun (k, n) =>
        .record [("key", .text k), ("n", .number n)]))])

end Stopwatch

end AisScript
