import AisScript.Build.Event
import AisScript.Text.Terminal

/-!
# Showing progress

Progress events as text: a line for each finished file, or a view of all files with a bar below
that is drawn again after every event.

* `Progress.line`         the line of a finished file
* `Progress.View.render`  the view at one moment
-/

namespace AisScript.Build.Progress

/-- The line of an event; only files that are finished get one. -/
def line (e : Event) : Text :=
  if e.file.isEmpty then []
  else match e.status with
    | .done | .cached =>
      (label e.stage e.status).flushLeft 8 ++ " " ++ e.file ++ " (" ++ e.elapsed.toMicros.render ++ ")\n"
    | .error => Text.flushLeft 8 "error" ++ " " ++ e.file ++ ": " ++ e.stage.name ++ "\n"
    | _ => []

/-- The lines of a sequence of events. -/
def lines (es : List Event) : Text := es.flatMap line

/-- A file as the view shows it. -/
structure Item where
  file : Text
  status : Text := "queued"
deriving DecidableEq, Repr, Inhabited

/-- The view of a running build. -/
structure View where
  title : Text
  items : List Item
  /-- The width of the window. -/
  width : Int := 80
  /-- The width of the bar with its percentage. -/
  bar : Int := 76
  finished : Bool := false
deriving DecidableEq, Repr, Inhabited

namespace View

/-- The view before anything has happened. -/
def start (title : Text) (files : List Text) : View :=
  { title, items := files.map fun file => { file := file } }

/-- The view in a window of another width. -/
def resize (v : View) (width : Int) : View :=
  if 0 < width then { v with width, bar := width - 4 } else v

/-- The number of the last item of a file. -/
def index? (v : View) (file : Text) : Option Nat :=
  ((List.range v.items.length).filter fun i => (v.items[i]?.map (·.file)) == some file).getLast?

/-- The view after an event.  Files that are not shown are ignored, and so are labels without a
word; of two items for one file the last is the one that changes. -/
def apply (v : View) (e : Event) : View :=
  match v.index? e.file with
  | none => v
  | some i =>
    let word := label e.stage e.status
    if word.isEmpty then v
    else { v with items := v.items.modify i fun item => { item with status := word } }

/-- The view when no more events come. -/
def finish (v : View) : View := { v with finished := true }

/-- A path cut to the width of its column. -/
def shortened (t : Text) (room : Nat) : Text :=
  if t.width ≤ room then t else t.truncate (room - 3) "..."

/-- The bar, all empty until the build is finished and all filled from then on. -/
def barText (v : View) : Text :=
  let percent : Text := if v.finished then " 100%" else "   0%"
  let cells := (v.bar - percent.length).toNat
  let cell : Text := if v.finished then "█" else "░"
  (List.replicate cells cell).flatten ++ percent

/-- A heading: tabs as four blanks, and all its lines filled up to the widest. -/
def heading (t : Text) : Text :=
  let spaced : Text := t.flatMap fun b => if b = 0x09 then Text.blanks 4 else [b]
  let lines := spaced.split 0x0A
  let widest := (lines.map Text.terminalWidth).foldl max 0
  if lines.length = 1 then lines.flatten
  else Text.join "\n" (lines.map fun l => l ++ Text.blanks (widest - l.terminalWidth))

/-- The view as text; a build without files shows nothing. -/
def render (v : View) : Text :=
  if v.items.isEmpty then []
  else
    let header : Text := heading (if v.finished then "done: " ++ v.title else "⣾  " ++ v.title)
    let room := max (v.width - 16).toNat 20
    let row (i : Item) : Text := "  " ++ i.status.flushRight 12 ++ " " ++ shortened i.file room ++ "\n"
    header ++ "\n\n" ++ v.items.flatMap row ++ "\n" ++ v.barText ++ "\n"

end View

end AisScript.Build.Progress
