import AisScript.Text.Cluster

/-!
# The width of a line on a terminal

A terminal does not draw everything it is sent: colours, links and window titles come as control
sequences, which fill no cells.  This measure leaves them out.  Between them it counts a cell for a
plain character, and clusters for the others; a cluster here is as wide as all its characters
together, unless it is a flag, a pictograph or a syllable.

* `Text.Awaited.after`     what a terminal expects next
* `Text.Bond.joins?`       which characters belong to a cluster
* `Text.terminalWidth`     the number of cells a line fills
-/

namespace AisScript.Text

/-- What a terminal expects to come next. -/
inductive Awaited where
  /-- Text to draw. -/
  | drawing
  /-- The kind of a sequence, after an escape. -/
  | escape
  /-- The end of a short sequence. -/
  | escapeEnd
  /-- The parameters of a control sequence. -/
  | control
  /-- The end of a control sequence. -/
  | controlEnd
  /-- The rest of a command to the system, such as a title or a link. -/
  | command
  /-- The rest of a message to nobody. -/
  | message
  /-- The beginning of a command to the device. -/
  | device
  /-- The parameters of a command to the device. -/
  | deviceParameter
  /-- The last letter in front of what the device is told. -/
  | deviceEnd
  /-- What the device is told. -/
  | deviceText
deriving DecidableEq, Repr

namespace Awaited

/-- What a byte makes a terminal expect wherever it comes, if it has such a meaning. -/
def anywhere? (b : UInt8) : Option Awaited :=
  if b = 0x1B then some .escape
  else if b = 0x18 || b = 0x1A then some .drawing
  else if b < 0x80 then none
  else if b = 0x90 then some .device
  else if b = 0x98 || b = 0x9E || b = 0x9F then some .message
  else if b = 0x9B then some .control
  else if b = 0x9D then some .command
  else some .drawing

/-- What a terminal expects after an escape and a byte. -/
def afterEscape (b : UInt8) : Awaited :=
  if b < 0x20 || b = 0x7F then .escape
  else if b < 0x30 then .escapeEnd
  else if b = 0x50 then .device
  else if b = 0x58 || b = 0x5E || b = 0x5F then .message
  else if b = 0x5B then .control
  else if b = 0x5D then .command
  else .drawing

/-- What a terminal expects after a byte without a meaning of its own. -/
def afterPlain (a : Awaited) (b : UInt8) : Awaited :=
  let silent := b < 0x20 || b = 0x7F
  match a with
  | .escape => afterEscape b
  | .escapeEnd | .controlEnd => if silent || b < 0x30 then a else .drawing
  | .control =>
    if silent then .control else if b < 0x30 then .controlEnd
    else if b < 0x40 then .control else .drawing
  | .device =>
    if 0x08 ≤ b && b ≤ 0x0D then .deviceText else if silent then .device
    else if b < 0x30 then .deviceEnd else if b < 0x40 then .deviceParameter else .deviceText
  | .deviceParameter =>
    if silent then .deviceParameter else if b < 0x30 then .deviceEnd
    else if b < 0x40 then .deviceParameter else .deviceText
  | .deviceEnd => if silent || b < 0x30 then .deviceEnd else .deviceText
  | .drawing | .command | .message | .deviceText => a

/-- Whether everything but the end of the sequence is skipped, characters of several bytes
included. -/
def skips (a : Awaited) : Bool := a = .command || a = .deviceText

/-- What a terminal expects after a byte. -/
def after (a : Awaited) (b : UInt8) : Awaited :=
  if a.skips then
    if b = 0x1B then .escape
    else if b = 0x18 || b = 0x1A || b = 0x9C || (b = 0x07 && a = .command) then .drawing
    else a
  else if a = .device && b = 0x1B then .deviceText
  else (anywhere? b).getD (a.afterPlain b)

end Awaited

/-- What the end of a cluster lets join. -/
inductive Bond where
  /-- Only what extends any character. -/
  | loose
  /-- A newline. -/
  | carriageReturn
  /-- Nothing at all. -/
  | closed
  /-- The rest of a syllable. -/
  | leadJamo | vowelJamo | tailJamo
  /-- Any character that is not a control. -/
  | leading
  /-- A joiner. -/
  | pictograph
  /-- Another pictograph. -/
  | joined
  /-- The second letter of a flag. -/
  | halfFlag
deriving DecidableEq, Repr

namespace Bond

/-- The end of a cluster that consists of one character. -/
def ofFirst : Joining → Bond
  | .carriageReturn => .carriageReturn
  | .lineFeed | .control => .closed
  | .syllableL => .leadJamo
  | .syllableV | .syllableLV => .vowelJamo
  | .syllableT | .syllableLVT => .tailJamo
  | .leading => .leading
  | .pictograph => .pictograph
  | .regional => .halfFlag
  | .other | .extend | .joiner | .spacing | .cutShort => .loose

/-- The end of a cluster after the next character, if that belongs to it. -/
def joins? : Bond → Joining → Option Bond
  | .carriageReturn, .lineFeed => some .closed
  | .carriageReturn, _ | .closed, _ => none
  | _, .carriageReturn | _, .lineFeed | _, .control => none
  | .leadJamo, .syllableL => some .leadJamo
  | .leadJamo, .syllableV | .leadJamo, .syllableLV | .vowelJamo, .syllableV => some .vowelJamo
  | .leadJamo, .syllableLVT | .vowelJamo, .syllableT | .tailJamo, .syllableT => some .tailJamo
  | .pictograph, .extend => some .pictograph
  | .pictograph, .joiner => some .joined
  | .joined, .pictograph => some .pictograph
  | .halfFlag, .regional => some .loose
  | _, .extend | _, .joiner | _, .spacing => some .loose
  | .leading, j => some (ofFirst j)
  | _, _ => none

end Bond

/-- The number of cells of a single code point.  Two dashes are wider than any other character. -/
def cellCount (code : Nat) : Nat :=
  match joining code with
  | .control | .carriageReturn | .lineFeed | .extend | .joiner => 0
  | .regional => 2
  | _ =>
    if code = 0x2E3A then 3
    else if code = 0x2E3B then 4
    else if inRanges wideRanges code && !inRanges slimRanges code then 2
    else 1

/-- A cluster that is being drawn. -/
structure Drawn where
  /-- How its first character joins. -/
  first : Joining
  bond : Bond
  cells : Nat
deriving DecidableEq, Repr

namespace Drawn

/-- A cluster of one character. -/
def start (code : Nat) : Drawn :=
  { first := joining code, bond := .ofFirst (joining code), cells := cellCount code }

/-- The cluster with another character, if that belongs to it.  A pictograph is as wide as a selector
behind it says, if there is one; a flag or a syllable keeps the width of its first character. -/
def push? (d : Drawn) (code : Nat) : Option Drawn :=
  (d.bond.joins? (joining code)).map fun bond =>
    let cells := match d.first with
      | .pictograph => if code = 0xFE0E then 1 else if code = 0xFE0F then 2 else d.cells
      | .regional | .syllableL => d.cells
      | _ => d.cells + cellCount code
    { d with bond, cells }

end Drawn

/-- Whether a glyph begins a cluster, rather than being read byte by byte. -/
def beginsCluster (g : Glyph) : Bool :=
  match g with
  | .char code => 0x80 ≤ code
  | .stray b => 0xC2 ≤ b && b ≤ 0xF4

/-- The number of cells of the glyphs behind what is awaited; `drawn` is the cluster just before
them, if one may still grow. -/
def cellsAfter : Awaited → (drawn : Option Drawn) → List Glyph → Nat
  | _, drawn, [] => (drawn.map Drawn.cells).getD 0
  | a, drawn, g :: gs =>
    match drawn.bind (·.push? g.code) with
    | some d => cellsAfter a (some d) gs
    | none =>
      let before := (drawn.map Drawn.cells).getD 0
      if beginsCluster g && !a.skips then
        before + cellsAfter .drawing (some (.start g.code)) gs
      else
        let visible := a = .drawing && 0x20 ≤ g.code && g.code < 0x7F
        before + visible.toNat + cellsAfter (g.bytes.foldl Awaited.after a) none gs

/-- The number of cells that a line fills on a terminal. -/
def terminalWidth (t : Text) : Nat := cellsAfter .drawing none (glyphs t)

end AisScript.Text
