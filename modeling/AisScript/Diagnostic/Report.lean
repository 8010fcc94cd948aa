import AisScript.Diagnostic.Bag
import AisScript.Source.File
import AisScript.Style
import AisScript.Text.Cluster
import AisScript.Text.Json

/-!
# Reports

The diagnostics of a bag as text.  All three reports need the files the diagnostics point into;
there is no report if one of them is missing from the file set, and none for readers if a source
line would have to be marked from column zero on.

* `Report.short`    one line each, for other tools
* `Report.pretty`   with the source line and an underline, for readers
* `Report.json`     for programs
-/

namespace AisScript

/-- How the path of a file is shown. -/
inductive PathStyle where
  | asIs | absolute | relative | basename
deriving DecidableEq, Repr

/-- How paths are shown, and the directories they are shown against. -/
structure PathView where
  style : PathStyle := .asIs
  /-- Where relative paths start; the working directory if empty. -/
  base : Text := []
  /-- The working directory. -/
  cwd : Text
deriving DecidableEq, Repr

/-- The path of a file as a report shows it.  A file in memory keeps its name. -/
def PathView.show (v : PathView) (f : SourceFile) : Text :=
  if f.flags.isVirtual then f.path
  else match v.style with
    | .asIs => f.path
    | .absolute => Path.absolute v.cwd f.path
    | .relative =>
      (Path.rel? (Path.absolute v.cwd v.base) (Path.absolute v.cwd f.path)).getD f.path
    | .basename => Path.base f.path

namespace Report

open Json (member)

/-- One line for each diagnostic: path, line and message. -/
def short (fs : FileSet) (ds : List Diagnostic) : Option Text := do
  let lines ← ds.mapM fun d => do
    let f ← fs.get? d.span.file
    let (start, _) ← fs.resolve? d.span
    return f.path ++ ":" ++ Text.ofNat start.line ++ ": " ++ d.message ++ "\n"
  return lines.flatten

/-- How a report for readers looks. -/
structure Layout where
  colored : Bool := false
  paths : PathView
  /-- The number of cells a source line may fill; zero for no limit. -/
  width : Nat := 0
  notes : Bool := false
deriving DecidableEq, Repr

/-- Tabs as four blanks. -/
def expandTabs (t : Text) : Text := t.flatMap fun b => if b = 0x09 then Text.blanks 4 else [b]

/-- A line of source and below it an underline of the part from `start` on, up to `stop` if that
stands on the same line.  The underline is measured in cells, so wide characters and tabs keep it
in place.  An empty line is not shown, and nothing else can be marked from column zero on. -/
def context (layout : Layout) (f : SourceFile) (start stop : Source.Position) : Option Text :=
  let raw := f.line start.line
  if raw.isEmpty then some []
  else if start.column = 0 then none
  else
    let from_ := min (start.column - 1) raw.length
    let end_ := if stop.line = start.line then min (stop.column - 1) raw.length else raw.length
    let line := expandTabs raw
    let line := if 0 < layout.width then line.truncate layout.width "…" else line
    let pad := (expandTabs (raw.take from_)).width
    let marked := max (expandTabs ((raw.take end_).drop from_)).width 1
    let marked :=
      if 0 < layout.width && layout.width < pad + marked then max (layout.width - pad) 1 else marked
    let underline : Text := 0x5E :: List.replicate (marked - 1) 0x7E
    some ("  " ++ line ++ "\n  " ++ Text.blanks pad
      ++ underline.painted layout.colored [.green, .bold] ++ "\n")

/-- The inks of a severity. -/
def inks (s : Severity) : List Ink :=
  if s = .error then [.red, .bold] else if s = .warning then [.yellow, .bold] else [.cyan, .bold]

/-- A place in a file: path, line and column. -/
def place (paths : PathView) (f : SourceFile) (p : Source.Position) : Text :=
  paths.show f ++ ":" ++ Text.ofNat p.line ++ ":" ++ Text.ofNat p.column

/-- A diagnostic with its source line and, if wanted, its notes. -/
def entry (layout : Layout) (fs : FileSet) (d : Diagnostic) : Option Text := do
  let f ← fs.get? d.span.file
  let (start, stop) ← fs.resolve? d.span
  let marked ← context layout f start stop
  let notes ← (if layout.notes then d.notes else []).mapM fun n => do
    let nf ← fs.get? n.span.file
    let (at_, _) ← fs.resolve? n.span
    return "  " ++ Text.painted "note:" layout.colored [.blue] ++ " " ++ place layout.paths nf at_
      ++ ": " ++ n.message ++ "\n"
  return (place layout.paths f start).painted layout.colored [.bold] ++ ": "
    ++ d.severity.name.painted layout.colored (inks d.severity) ++ " "
    ++ d.code.id.painted layout.colored [.faint] ++ ": " ++ d.message ++ "\n"
    ++ marked ++ notes.flatten

/-- A report for readers. -/
def pretty (layout : Layout) (fs : FileSet) (ds : List Diagnostic) : Option Text := do
  return (← ds.mapM (entry layout fs)).flatten

/-- What a report for programs holds. -/
structure Contents where
  /-- Lines and columns beside the offsets. -/
  positions : Bool := false
  paths : PathView
  /-- The number of diagnostics; all of them unless positive. -/
  limit : Int := 0
  notes : Bool := false
deriving DecidableEq, Repr

/-- A place as JSON.  A column that is zero is left out. -/
def location (c : Contents) (fs : FileSet) (s : Span) : Option Json := do
  let f ← fs.get? s.file
  let (start, stop) ← fs.resolve? s
  let count (n : Nat) : Json := .number n
  let column (key : Text) (n : Nat) := if n = 0 then [] else [member key (count n)]
  return .record ([member "file" (.text (c.paths.show f)), member "start_byte" (count s.start),
    member "end_byte" (count s.stop)] ++ if c.positions then
      member "start_line" (count start.line) :: column "start_col" start.column
        ++ member "end_line" (count stop.line) :: column "end_col" stop.column else [])

/-- A diagnostic as JSON.  Timings always come with their notes, which hold the numbers. -/
def record (c : Contents) (fs : FileSet) (d : Diagnostic) : Option Json := do
  let loc ← location c fs d.span
  let notes ← (if c.notes || d.code = .timings then d.notes else []).mapM fun n => do
    return Json.record [("message", .text n.message), ("location", ← location c fs n.span)]
  return .record ([member "severity" (.text d.severity.name), member "code" (.text d.code.id),
    member "message" (.text d.message), member "location" loc]
    ++ if notes.isEmpty then [] else [member "notes" (.list notes)])

/-- A report for programs. -/
def json (c : Contents) (fs : FileSet) (ds : List Diagnostic) : Option Text := do
  let kept := if 0 < c.limit then ds.take c.limit.toNat else ds
  let records ← kept.mapM (record c fs)
  return (Json.record [("diagnostics", .list records), ("count", .number records.length)]).indented

end Report

end AisScript
